import Dbms.Server.Answers
import Dbms.Server.Entry

/-! What the clients of the entry node are answered, and which storage node has served them. -/

open Dbms.Core Dbms.Exec Dbms.Lib Dbms.Auth

namespace Dbms.Server

namespace Node
variable {D : Type} {n n' : Node D} {W : World} {z : D} {e : Event D}

theorem Move.sends (hm : Move W z n e n') (hs : n.Sane) (i : Nat) :
    (n'.handlers i).output = (n.handlers i).output ∨
      (n.handlers i).output = [] ∧ ((n'.handlers i).output ≠ [] → (n'.handlers i).asks ≠ none) := by
  have hset : ∀ (m : Node D) (j : Nat) (h : Handler), m.handlers = n.handlers →
      (h.output = (n.handlers j).output ∨ (n.handlers j).output = [] ∧
        (h.output ≠ [] → h.asks ≠ none)) →
      ((m.setHandler j h).handlers i).output = (n.handlers i).output ∨
        (n.handlers i).output = [] ∧ (((m.setHandler j h).handlers i).output ≠ [] →
          ((m.setHandler j h).handlers i).asks ≠ none) := by
    intro m j h hm hh
    by_cases hij : i = j
    · subst hij
      rwa [setHandler_self]
    · rw [setHandler_of_ne hij, hm]
      exact .inl rfl
  cases hm with
  | accept input =>
    refine hset _ _ _ rfl (.inl ?_)
    have hfits := hs.fits n.accepted
    unfold Handler.Fits at hfits
    rw [hs.tidy.handlers _ le_rfl] at hfits
    exact hfits.2.symm
  | closes j _ _ reply hphase _ _ hnone =>
    have hfits := hs.fits j
    unfold Handler.Fits at hfits
    rw [hphase] at hfits
    refine hset _ _ _ rfl (.inr ⟨hfits, fun hne hasks => hne ?_⟩)
    show (n.handlers j).output ++ reply = []
    rw [hnone ((Handler.asks_congr rfl).symm.trans hasks), hfits]
    rfl
  | logs j _ _ _ _ _ hphase =>
    have hfits := hs.fits j
    unfold Handler.Fits at hfits
    rw [hphase] at hfits
    obtain ⟨⟨jwt, hasks⟩, hout⟩ := hfits
    refine hset _ _ _ rfl (.inr ⟨hout, fun _ hnone => ?_⟩)
    cases hasks.symm.trans ((Handler.asks_congr rfl).symm.trans hnone)
  | submits j _ _ _ _ hphase =>
    have hfits := hs.fits j
    unfold Handler.Fits at hfits
    rw [hphase] at hfits
    refine hset _ _ _ rfl (.inr ⟨hfits.2, fun _ hnone => ?_⟩)
    cases hfits.1.symm.trans ((Handler.asks_congr rfl).symm.trans hnone)
  | starts | enters | executes | records | leaves | notes => exact hset _ _ _ rfl (.inl rfl)
  | stops | outlived | begins | works | stores => exact .inl rfl

theorem accept_eq [Zero D] [Add D] [Div D] [NatCast D] {print : Snapshot D → Text} {input : Text}
    (h : n.step W print (.accept input) = some n') : n' = n.accept input := by
  unfold Node.step at h
  split at h
  · cases h
  · exact (Option.some.inj h).symm

def Heard (n : Node D) : Prop := ∀ i, (n.handlers i).output ≠ [] → (n.handlers i).asks ≠ none

theorem Move.heard (hm : Move W z n e n') (hs : n.Sane) (hh : n.Heard) : n'.Heard := by
  intro i hne
  rcases hm.sends hs i with hsame | ⟨-, hnew⟩
  · rw [hsame] at hne
    have hasks := hh i hne
    cases ha : (n.handlers i).asks with
    | none => exact absurd ha hasks
    | some a =>
      rw [(hm.extends hs.tidy).asks hs ha]
      simp
  · exact hnew hne

end Node

def RelayPhase.link {S : Type} : RelayPhase S → Option (S × Nat)
  | .sent link | .relayed link | .cut link => some link
  | _ => none

def Relay.line {S : Type} (r : Relay S) : Option Text :=
  match Net.readLine r.input with
  | (line, some _) => some line
  | (_, none) => none

namespace Cluster
variable {S D : Type} {W : S → World} {route : Text × Nat → S}
  {c c' : Cluster S D} {a : Act S D} {i : Nat} {s : S} {link : S × Nat}

def seen [DecidableEq S] (route : Text × Nat → S) (s : S) (a : Act S D) (c : Cluster S D) :
    Option (Event D) :=
  match a with
  | .storage s' e => if s' = s then some e else none
  | .connect i (some wrote) =>
    match (c.relays i).phase with
    | .picked line node =>
      if route (address node) = s then
        some (.accept (Net.writeAll wrote (line ++ ['\n'])).1)
      else none
    | _ => none
  | .beat j (some wrote) =>
    match c.nodes[j]? with
    | some node =>
      if route (address node) = s then some (.accept (Net.writeAll wrote "METRICS\n".toList).1)
      else none
    | none => none
  | _ => none

def sends (route : Text × Nat → S) (a : Act S D) (c : Cluster S D) : Option (Nat × (S × Nat)) :=
  match a with
  | .connect i (some _) =>
    match (c.relays i).phase with
    | .picked _ node =>
      some (i, (route (address node), (c.storages (route (address node))).accepted))
    | _ => none
  | _ => none

def picks (a : Act S D) (c : Cluster S D) : Option (Nat × Nat) :=
  match a with
  | .pick i => if (c.relays i).line = none ∨ c.pickStorage.1 < 0 then none
    else some (i, c.pickStorage.1.toNat)
  | _ => none

section
variable [DecidableEq S]

theorem setStorage_self {n : Node D} : (c.setStorage s n).storages s = n := Function.update_self ..

theorem setStorage_of_ne {n : Node D} {s' : S} (h : s' ≠ s) :
    (c.setStorage s n).storages s' = c.storages s' := Function.update_of_ne h ..

end

/-- What a connection carries to a storage node is the line of the client, or a part of it. -/
structure Linked (route : Text × Nat → S) (c : Cluster S D) (line : Text) (link : S × Nat) : Prop where
  node : ∃ node ∈ c.nodes, route (address node) = link.1
  phase : ((c.storages link.1).handlers link.2).phase ≠ .absent
  input : ((c.storages link.1).handlers link.2).input <+: line ++ ['\n']

/-- There is no storage node, or one whose number is no `int`. -/
def Lacking (nodes : List (Text × Int)) : Prop := nodes = [] ∨ 2 ^ 31 < nodes.length

/-- Where the counter stands makes no difference but to `pickStorage`. -/
theorem pickStorage_rr (c : Cluster S D) : ∃ rr, c.pickStorage.2 = { c with rr := rr } := by
  unfold pickStorage
  split
  · exact ⟨c.rr, rfl⟩
  · exact ⟨_, rfl⟩

theorem pickStorage_eq (hne : c.nodes ≠ []) (hlen : c.nodes.length ≤ 2 ^ 31) : c.pickStorage =
    (((c.rr % c.nodes.length : Nat) : Int), { c with rr := (c.rr + 1) % 2 ^ 64 }) := by
  have hlt : c.rr % c.nodes.length < c.nodes.length := Nat.mod_lt _ (List.length_pos_iff.mpr hne)
  unfold pickStorage
  rw [if_neg hne, Int.bmod_eq_of_le (by omega) (by omega)]

theorem lacking_of_neg (h : c.pickStorage.1 < 0) : Lacking c.nodes := by
  by_contra hno
  obtain ⟨hne, hlen⟩ := not_or.mp hno
  rw [pickStorage_eq hne (Nat.le_of_not_lt hlen)] at h
  exact absurd h (Int.not_lt.mpr (Int.natCast_nonneg _))

/-- What a thread has sent to its client, and what it still knows, by where it stands. -/
def Fits (route : Text × Nat → S) (c : Cluster S D) (r : Relay S) : Prop :=
  match r.phase with
  | .absent | .opened => r.output = []
  | .picked line node => r.line = some line ∧ node ∈ c.nodes ∧ r.output = []
  | .sent link => (∃ line, r.line = some line ∧ c.Linked route line link) ∧ r.output = []
  | .refused => (r.line = none ∧ r.output = []) ∨
    (∃ line, r.line = some line) ∧ (Lacking c.nodes ∧ r.output = errLine "no storage".toList ∨
      c.nodes ≠ [] ∧ r.output = errLine "storage down".toList)
  | .relayed link => (∃ line, r.line = some line ∧ c.Linked route line link) ∧
    (r.output = ['\n'] ∨
      c.sentOver link ≠ [] ∧ r.output = (Net.readLine (c.sentOver link)).1 ++ ['\n'])
  | .cut link => (∃ line, r.line = some line ∧ c.Linked route line link) ∧
    ∃ n, r.output = (Net.readLine ((c.sentOver link).take n)).1 ++ ['\n']

structure Keeps (c c' : Cluster S D) : Prop where
  nodes : c'.nodes = c.nodes
  input : ∀ link : S × Nat, ((c.storages link.1).handlers link.2).phase ≠ .absent →
    ((c'.storages link.1).handlers link.2).phase ≠ .absent ∧
      ((c'.storages link.1).handlers link.2).input = ((c.storages link.1).handlers link.2).input
  sent : ∀ link, c.sentOver link ≠ [] → c'.sentOver link = c.sentOver link

theorem Keeps.relays (c : Cluster S D) (relays : Nat → Relay S) (rr accepted : Nat) :
    c.Keeps { c with relays := relays, rr := rr, accepted := accepted } :=
  ⟨rfl, fun _ h => ⟨h, rfl⟩, fun _ _ => rfl⟩

theorem Keeps.linked {line : Text} (hk : c.Keeps c') (h : c.Linked route line link) :
    c'.Linked route line link where
  node := hk.nodes ▸ h.node
  phase := (hk.input link h.phase).1
  input := (hk.input link h.phase).2 ▸ h.input

theorem Keeps.fits {r : Relay S} (hk : c.Keeps c') (h : c.Fits route r) : c'.Fits route r := by
  unfold Fits at h ⊢
  cases hp : r.phase with
  | absent | opened =>
    rw [hp] at h
    exact h
  | picked line node =>
    rw [hp] at h
    exact ⟨h.1, hk.nodes ▸ h.2.1, h.2.2⟩
  | refused =>
    rw [hp] at h
    dsimp only at h ⊢
    rwa [hk.nodes]
  | sent link' =>
    rw [hp] at h
    obtain ⟨⟨line, hline, hl⟩, hout⟩ := h
    exact ⟨⟨line, hline, hk.linked hl⟩, hout⟩
  | relayed link' =>
    rw [hp] at h
    obtain ⟨⟨line, hline, hl⟩, hout⟩ := h
    refine ⟨⟨line, hline, hk.linked hl⟩, hout.imp_right fun hout => ?_⟩
    rwa [hk.sent link' hout.1]
  | cut link' =>
    rw [hp] at h
    obtain ⟨⟨line, hline, hl⟩, n, hout⟩ := h
    refine ⟨⟨line, hline, hk.linked hl⟩, ?_⟩
    by_cases hsent : c.sentOver link' = []
    · -- what comes later does not reach a client that has been cut off
      refine ⟨0, ?_⟩
      rw [hout, hsent, List.take_nil]
      rfl
    · rw [hk.sent link' hsent]
      exact ⟨n, hout⟩

/-- What holds in every state that the threads reach, when `sent` are the lines handed on so far. -/
structure Sound (route : Text × Nat → S) (c : Cluster S D) (sent : List (Nat × (S × Nat))) : Prop where
  sane : ∀ s, (c.storages s).Sane ∧ (c.storages s).Heard
  tidy : ∀ i, c.accepted ≤ i → (c.relays i).phase = .absent
  fits : ∀ i, c.Fits route (c.relays i)
  handed : ∀ i link, (i, link) ∈ sent ↔ (c.relays i).phase.link = some link
  once : (sent.map Prod.fst).Nodup
  links : (sent.map Prod.snd).Nodup

section
variable {sent : List (Nat × (S × Nat))} {r : Relay S}

theorem Fits.linked (h : c.Fits route r) (hlink : r.phase.link = some link) :
    ∃ line, r.line = some line ∧ c.Linked route line link := by
  unfold Fits at h
  cases hp : r.phase <;> rw [hp] at h hlink <;> cases hlink <;> exact h.1

theorem Sound.keeps (h : c.Sound route sent) (hk : c.Keeps c') (hrelays : c'.relays = c.relays)
    (haccepted : c'.accepted = c.accepted)
    (hsane : ∀ s, (c'.storages s).Sane ∧ (c'.storages s).Heard) : c'.Sound route sent where
  sane := hsane
  tidy := by
    rw [hrelays, haccepted]
    exact h.tidy
  fits i := by
    rw [hrelays]
    exact hk.fits (h.fits i)
  handed := by
    rw [hrelays]
    exact h.handed
  once := h.once
  links := h.links

theorem Sound.setRelay (h : c.Sound route sent) (hphase : (c.relays i).phase ≠ .absent)
    (hlink : r.phase.link = (c.relays i).phase.link) (hfits : c.Fits route r) :
    (c.setRelay i r).Sound route sent where
  sane := h.sane
  tidy := (Function.forall_update_iff c.relays fun j r => c.accepted ≤ j → r.phase = .absent).mpr
    ⟨fun hi => absurd (h.tidy i hi) hphase, fun j _ => h.tidy j⟩
  fits j := (Keeps.relays c _ _ _).fits ((Function.forall_update_iff c.relays fun _ r =>
    c.Fits route r).mpr ⟨hfits, fun j _ => h.fits j⟩ j)
  handed := (Function.forall_update_iff c.relays fun j r =>
    ∀ link, (j, link) ∈ sent ↔ r.phase.link = some link).mpr
      ⟨fun link => hlink ▸ h.handed i link, fun j _ => h.handed j⟩
  once := h.once
  links := h.links

theorem Sound.accept (h : c.Sound route sent) (input : Text) :
    (c.accept input).Sound route sent where
  sane := h.sane
  tidy := (Function.forall_update_iff c.relays fun j r =>
    c.accepted + 1 ≤ j → r.phase = .absent).mpr
      ⟨fun hi => absurd hi (Nat.not_succ_le_self _), fun j _ hj => h.tidy j (Nat.le_of_succ_le hj)⟩
  fits j := (Keeps.relays c _ _ _).fits ((Function.forall_update_iff c.relays fun _ r =>
    c.Fits route r).mpr ⟨show c.Fits route ⟨input, .opened, []⟩ from rfl, fun j _ => h.fits j⟩ j)
  handed := (Function.forall_update_iff c.relays fun j r =>
    ∀ link, (j, link) ∈ sent ↔ r.phase.link = some link).mpr
      ⟨fun link => (h.handed _ link).trans (by rw [h.tidy _ le_rfl]; rfl), fun j _ => h.handed j⟩
  once := h.once
  links := h.links

theorem Sound.new (ex : S → Executor) (nodes : List (Text × Int)) :
    (new ex nodes : Cluster S D).Sound route [] where
  sane s := ⟨.new (ex s), fun _ h => absurd rfl h⟩
  tidy _ _ := rfl
  fits _ := rfl
  handed _ _ := ⟨nofun, nofun⟩
  once := List.nodup_nil
  links := List.nodup_nil

theorem Sound.fits_of {p : RelayPhase S} (h : c.Sound route sent) (hp : (c.relays i).phase = p) :
    c.Fits route { c.relays i with phase := p } := by
  rw [← hp]
  exact h.fits i

theorem Sound.goes {p : RelayPhase S} (h : c.Sound route sent) (hp : (c.relays i).phase = p)
    (hne : p ≠ .absent) (hlink : r.phase.link = p.link) (hfits : c.Fits route r) :
    (c.setRelay i r).Sound route sent :=
  h.setRelay (hp ▸ hne) (hp ▸ hlink) hfits

theorem Sound.unlinked (h : c.Sound route sent) (s : S) (j : Nat) :
    (c.relays j).phase.link ≠ some (s, (c.storages s).accepted) := by
  intro hlink
  obtain ⟨line, -, hl⟩ := (h.fits j).linked hlink
  exact hl.phase ((h.sane s).1.tidy.handlers _ le_rfl)

theorem Sound.sends (h : c.Sound route sent) (hphase : (c.relays i).phase ≠ .absent)
    (hnone : (c.relays i).phase.link = none) (hlink : r.phase.link = some link)
    (hfits : c.Fits route r) (hnew : ∀ j, (c.relays j).phase.link ≠ some link) :
    (c.setRelay i r).Sound route (sent ++ [(i, link)]) := by
  have hi : ∀ l, (i, l) ∉ sent := by
    intro l hl
    cases hnone.symm.trans ((h.handed i l).mp hl)
  constructor
  · exact h.sane
  · exact (Function.forall_update_iff c.relays fun j r => c.accepted ≤ j → r.phase = .absent).mpr
      ⟨fun hj => absurd (h.tidy i hj) hphase, fun j _ => h.tidy j⟩
  · exact fun j => (Keeps.relays c _ _ _).fits ((Function.forall_update_iff c.relays fun _ r =>
      c.Fits route r).mpr ⟨hfits, fun j _ => h.fits j⟩ j)
  · refine (Function.forall_update_iff c.relays fun j r =>
      ∀ l, (j, l) ∈ sent ++ [(i, link)] ↔ r.phase.link = some l).mpr ⟨fun l => ?_, fun j hj l => ?_⟩
    · rw [hlink, Option.some_inj]
      simp [hi, eq_comm]
    · rw [← h.handed]
      simp [hj]
  · rw [List.map_append, List.nodup_append]
    refine ⟨h.once, List.nodup_singleton _, fun j hj j' hj' => ?_⟩
    obtain ⟨⟨j, l⟩, hmem, rfl⟩ := List.mem_map.mp hj
    obtain rfl := List.mem_singleton.mp hj'
    rintro rfl
    exact hi l hmem
  · rw [List.map_append, List.nodup_append]
    refine ⟨h.links, List.nodup_singleton _, fun l hl l' hl' => ?_⟩
    obtain ⟨⟨j, l⟩, hmem, rfl⟩ := List.mem_map.mp hl
    obtain rfl := List.mem_singleton.mp hl'
    rintro rfl
    exact hnew j ((h.handed j _).mp hmem)

/-- What the client of a thread has got, when `sent` are the lines handed on. -/
inductive Tells (c : Cluster S D) (sent : List (Nat × (S × Nat))) (i : Nat) : Text → Prop where
  | nothing : Tells c sent i []
  | lacking : (∀ link, (i, link) ∉ sent) → Lacking c.nodes →
      Tells c sent i (errLine "no storage".toList)
  | down : (∀ link, (i, link) ∉ sent) → c.nodes ≠ [] →
      Tells c sent i (errLine "storage down".toList)
  | whole (line : Text) (link : S × Nat) : (i, link) ∈ sent → (c.relays i).line = some line →
      ((c.storages link.1).handlers link.2).asks = some (parseLine line) →
      Tells c sent i ((Net.readLine (c.sentOver link)).1 ++ ['\n'])
  | part (link : S × Nat) (n : Nat) : (i, link) ∈ sent →
      (n = 0 ∨ (c.relays i).phase = .cut link) →
      Tells c sent i ((Net.readLine ((c.sentOver link).take n)).1 ++ ['\n'])

/-- A storage node that answers has got the whole line. -/
theorem Linked.asks {line : Text} (hl : c.Linked route line link)
    (hline : r.line = some line) (hh : (c.storages link.1).Heard) (hsent : c.sentOver link ≠ []) :
    ((c.storages link.1).handlers link.2).asks = some (parseLine line) := by
  have hasks := hh link.2 hsent
  unfold Handler.asks at hasks ⊢
  cases hread : Net.readLine ((c.storages link.1).handlers link.2).input with
  | mk line' rest =>
    rw [hread] at hasks
    cases rest with
    | none => exact absurd rfl hasks
    | some rest =>
      have hno : '\n' ∉ line := by
        unfold Relay.line at hline
        split at hline
        · rename_i hread'
          obtain rfl := Option.some.inj hline
          exact (Net.readLine_eq hread').1
        · cases hline
      have hinput := hl.input
      rw [(Net.readLine_eq hread).2] at hinput
      obtain ⟨t, ht⟩ := hinput
      have hsame := Net.readLine_line hno []
      rw [← ht, List.append_assoc, List.cons_append, Net.readLine_line (Net.readLine_eq hread).1]
        at hsame
      rw [(Prod.mk.inj hsame).1]

theorem Sound.tells (h : c.Sound route sent) (i : Nat) :
    c.Tells sent i (c.relays i).output := by
  have hfits := h.fits i
  have hhanded := h.handed i
  unfold Fits at hfits
  cases hp : (c.relays i).phase with
  | absent | opened =>
    rw [hp] at hfits
    rw [show (c.relays i).output = [] from hfits]
    exact .nothing
  | picked line node =>
    rw [hp] at hfits
    rw [hfits.2.2]
    exact .nothing
  | sent link =>
    rw [hp] at hfits
    rw [hfits.2]
    exact .nothing
  | refused =>
    rw [hp] at hfits hhanded
    have hnone : ∀ link, (i, link) ∉ sent := fun link hmem => nomatch (hhanded link).mp hmem
    obtain ⟨-, hout⟩ | ⟨-, ⟨hnodes, hout⟩ | ⟨hnodes, hout⟩⟩ := hfits
    · rw [hout]
      exact .nothing
    · rw [hout]
      exact .lacking hnone hnodes
    · rw [hout]
      exact .down hnone hnodes
  | relayed link =>
    rw [hp] at hfits hhanded
    obtain ⟨⟨line, hline, hl⟩, hout | ⟨hsent, hout⟩⟩ := hfits
    · rw [hout]
      exact .part link 0 ((hhanded link).mpr rfl) (.inl rfl)
    · rw [hout]
      exact .whole line link ((hhanded link).mpr rfl) hline (hl.asks hline (h.sane _).2 hsent)
  | cut link =>
    rw [hp] at hfits hhanded
    obtain ⟨-, n, hout⟩ := hfits
    rw [hout]
    exact .part link n ((hhanded link).mpr rfl) (.inr hp)

end

section
variable [DecidableEq S] [Zero D] [Add D] [Div D] [NatCast D] {print : Snapshot D → Text}

inductive Turn (W : S → World) (print : Snapshot D → Text) (route : Text × Nat → S)
    (c : Cluster S D) : Act S D → Cluster S D → Prop where
  | inside (s : S) (e : Event D) (n : Node D) : (c.storages s).step (W s) print e = some n →
      Turn W print route c (.storage s e) (c.setStorage s n)
  | accept (input : Text) : Turn W print route c (.accept input) (c.accept input)
  | leaves (i : Nat) : (c.relays i).phase = .opened → (c.relays i).line = none →
      Turn W print route c (.pick i) (c.advance i .refused)
  | lacks (i : Nat) (line : Text) : (c.relays i).phase = .opened → (c.relays i).line = some line →
      c.pickStorage.1 < 0 → Turn W print route c (.pick i)
        (c.pickStorage.2.answer i (errLine "no storage".toList) .refused)
  | picks (i : Nat) (line : Text) (node : Text × Int) : (c.relays i).phase = .opened →
      (c.relays i).line = some line → 0 ≤ c.pickStorage.1 →
      c.nodes[c.pickStorage.1.toNat]? = some node →
      Turn W print route c (.pick i) (c.pickStorage.2.advance i (.picked line node))
  | fails (i : Nat) (line : Text) (node : Text × Int) : (c.relays i).phase = .picked line node →
      Turn W print route c (.connect i none)
        (c.answer i (errLine "storage down".toList) .refused)
  | connects (i : Nat) (wrote : List Int) (line : Text) (node : Text × Int) (n : Node D) :
      (c.relays i).phase = .picked line node →
      (c.storages (route (address node))).step (W (route (address node))) print
        (.accept (Net.writeAll wrote (line ++ ['\n'])).1) = some n →
      Turn W print route c (.connect i (some wrote))
        ((c.setStorage (route (address node)) n).advance i
          (.sent (route (address node), (c.storages (route (address node))).accepted)))
  | replies (i : Nat) (link : S × Nat) : (c.relays i).phase = .sent link → c.readable link = true →
      Turn W print route c (.reply i)
        (c.answer i ((Net.readLine (c.sentOver link)).1 ++ ['\n']) (.relayed link))
  | loses (i received : Nat) (link : S × Nat) : (c.relays i).phase = .sent link →
      Turn W print route c (.lose i received)
        (c.answer i ((Net.readLine ((c.sentOver link).take received)).1 ++ ['\n']) (.cut link))
  | misses (j : Nat) : Turn W print route c (.beat j none) c
  | beats (j : Nat) (wrote : List Int) (node : Text × Int) (n : Node D) : c.nodes[j]? = some node →
      (c.storages (route (address node))).step (W (route (address node))) print
        (.accept (Net.writeAll wrote "METRICS\n".toList).1) = some n →
      Turn W print route c (.beat j (some wrote)) (c.setStorage (route (address node)) n)

theorem step_turn (h : c.step W print route a = some c') : Turn W print route c a c' := by
  cases a with
  | storage s e =>
    obtain ⟨n, hn, rfl⟩ := Option.map_eq_some_iff.mp h
    exact .inside s e n hn
  | accept input =>
    obtain rfl := Option.some.inj h
    exact .accept input
  | pick i =>
    dsimp only [step, pick] at h
    split at h
    · rename_i hphase
      cases hline : Net.readLine (c.relays i).input with
      | mk line rest =>
        rw [hline] at h
        cases rest with
        | none =>
          obtain rfl := Option.some.inj h
          exact .leaves i hphase (by simp [Relay.line, hline])
        | some rest =>
          have hsome : (c.relays i).line = some line := by simp [Relay.line, hline]
          dsimp only at h
          by_cases hneg : c.pickStorage.1 < 0
          · rw [if_pos hneg] at h
            obtain rfl := Option.some.inj h
            exact .lacks i line hphase hsome hneg
          · rw [if_neg hneg] at h
            obtain ⟨node, hnode, rfl⟩ := Option.map_eq_some_iff.mp h
            obtain ⟨rr, hrr⟩ := c.pickStorage_rr
            rw [hrr] at hnode
            exact .picks i line node hphase hsome (Int.not_lt.mp hneg) hnode
    · cases h
  | connect i wrote =>
    dsimp only [step, connect] at h
    split at h
    · rename_i line node hphase
      obtain rfl := Option.some.inj h
      exact .fails i line node hphase
    · rename_i line node wrote hphase
      obtain ⟨c', hc', rfl⟩ := Option.map_eq_some_iff.mp h
      obtain ⟨n, hn, rfl⟩ := Option.map_eq_some_iff.mp hc'
      exact .connects i wrote line node n hphase hn
    · cases h
  | reply i =>
    dsimp only [step, reply] at h
    split at h
    · rename_i link hphase
      split at h
      · rename_i hread
        obtain rfl := Option.some.inj h
        exact .replies i link hphase (Bool.and_eq_true_iff.mp hread).2
      · cases h
    · cases h
  | lose i received =>
    dsimp only [step, lose] at h
    split at h
    · rename_i link hphase
      split at h
      · obtain rfl := Option.some.inj h
        exact .loses i received link hphase
      · cases h
    · cases h
  | beat j wrote =>
    dsimp only [step, beat] at h
    split at h
    · cases h
    · obtain rfl := Option.some.inj h
      exact .misses j
    · rename_i node wrote hnode
      obtain ⟨n, hn, rfl⟩ := Option.map_eq_some_iff.mp h
      exact .beats j wrote node n hnode hn

theorem simulates_set {n : Node D} {e : Event D} {s' : S} (r : Nat → Relay S) (rr accepted : Nat)
    (h : (c.storages s).step (W s) print e = some n) :
    Machine.run (Node.step (W s') print) (if s = s' then some e else none).toList (c.storages s') =
      some ({ c.setStorage s n with relays := r, rr := rr, accepted := accepted }.storages s') := by
  show _ = some ((c.setStorage s n).storages s')
  by_cases hs : s = s'
  · subst hs
    rw [if_pos rfl, setStorage_self]
    exact Machine.run_cons.mpr ⟨n, h, rfl⟩
  · rw [if_neg hs, setStorage_of_ne (Ne.symm hs)]
    rfl

theorem step_simulates (W : S → World) (print : Snapshot D → Text) (route : Text × Nat → S) (s : S) :
    Machine.Simulates (fun _ => True) (step W print route) (Node.step (W s) print)
      (fun c : Cluster S D => c.storages s) (seen route s) := by
  refine fun a c c' _ h => ⟨trivial, ?_⟩
  cases step_turn h with
  | inside s' e n hn => exact simulates_set c.relays c.rr c.accepted hn
  | connects i wrote line node n hphase hn =>
    simp only [seen, hphase]
    exact simulates_set _ c.rr c.accepted hn
  | beats j wrote node n hnode hn =>
    simp only [seen, hnode]
    exact simulates_set c.relays c.rr c.accepted hn
  | lacks | picks =>
    obtain ⟨rr, hrr⟩ := c.pickStorage_rr
    rw [hrr]
    rfl
  | _ => rfl

theorem keeps_setStorage {e : Event D} {n : Node D} (hs : (c.storages s).Sane)
    (h : (c.storages s).step (W s) print e = some n) : c.Keeps (c.setStorage s n) where
  nodes := rfl
  input link hphase := by
    by_cases hlink : link.1 = s
    · rw [hlink, setStorage_self]
      rw [hlink] at hphase
      exact ((Node.step_move h).extends hs.tidy).input _ hphase
    · rw [setStorage_of_ne hlink]
      exact ⟨hphase, rfl⟩
  sent link hsent := by
    by_cases hlink : link.1 = s
    · unfold sentOver at hsent ⊢
      rw [hlink] at hsent
      rw [hlink, setStorage_self]
      exact ((Node.step_move h).sends hs _).resolve_right fun h' => hsent h'.1
    · unfold sentOver
      rw [setStorage_of_ne hlink]

theorem sane_setStorage {e : Event D} {n : Node D} (h : ∀ s, (c.storages s).Sane ∧ (c.storages s).Heard)
    (hn : (c.storages s).step (W s) print e = some n) (s' : S) :
    ((c.setStorage s n).storages s').Sane ∧ ((c.setStorage s n).storages s').Heard := by
  by_cases hs : s' = s
  · subst hs
    rw [setStorage_self]
    have hm := Node.step_move hn
    exact ⟨hm.sane (h s').1, hm.heard (h s').1 (h s').2⟩
  · rw [setStorage_of_ne hs]
    exact h s'

theorem Sound.setStorage {sent : List (Nat × (S × Nat))} {e : Event D} {n : Node D}
    (h : c.Sound route sent) (hn : (c.storages s).step (W s) print e = some n) :
    (c.setStorage s n).Sound route sent :=
  h.keeps (keeps_setStorage (h.sane s).1 hn) rfl rfl (sane_setStorage h.sane hn)

theorem Turn.sound {sent : List (Nat × (S × Nat))} (ht : Turn W print route c a c')
    (h : c.Sound route sent) : c'.Sound route (sent ++ (sends route a c).toList) := by
  have hsame : sends route a c = none → c'.Sound route sent →
      c'.Sound route (sent ++ (sends route a c).toList) := by
    intro hnone hc
    rwa [hnone, Option.toList_none, List.append_nil]
  cases ht with
  | inside s e n hn => exact hsame rfl (h.setStorage hn)
  | accept input => exact hsame rfl (h.accept input)
  | misses j => exact hsame rfl h
  | beats j wrote node n hnode hn => exact hsame rfl (h.setStorage hn)
  | leaves i hphase hline =>
    exact hsame rfl (h.goes hphase nofun rfl (.inl ⟨hline, h.fits_of hphase⟩))
  | lacks i line hphase hline hneg =>
    have hout : (c.relays i).output = [] := h.fits_of hphase
    have hnodes := lacking_of_neg hneg
    obtain ⟨rr, hrr⟩ := c.pickStorage_rr
    have hcount : Sound route { c with rr := rr } sent :=
      h.keeps (Keeps.relays c _ _ _) rfl rfl h.sane
    refine hsame rfl ?_
    rw [hrr]
    refine hcount.goes hphase nofun rfl (.inr ⟨⟨line, hline⟩, .inl ⟨hnodes, ?_⟩⟩)
    exact congrArg (· ++ errLine "no storage".toList) hout
  | picks i line node hphase hline _ hnode =>
    obtain ⟨rr, hrr⟩ := c.pickStorage_rr
    have hcount : Sound route { c with rr := rr } sent :=
      h.keeps (Keeps.relays c _ _ _) rfl rfl h.sane
    refine hsame rfl ?_
    rw [hrr]
    exact hcount.goes hphase nofun rfl ⟨hline, List.mem_of_getElem? hnode, h.fits_of hphase⟩
  | fails i line node hphase =>
    obtain ⟨hline, hnode, hout⟩ := h.fits_of hphase
    refine hsame rfl (h.goes hphase nofun rfl
      (.inr ⟨⟨line, hline⟩, .inr ⟨List.ne_nil_of_mem hnode, ?_⟩⟩))
    exact congrArg (· ++ errLine "storage down".toList) hout
  -- The only step that hands a line on: the connection is a new one of the storage node.
  | connects i wrote line node n hphase hn =>
    obtain ⟨hline, hnode, hout⟩ := h.fits_of hphase
    have hsends : sends route (.connect i (some wrote)) c =
        some (i, (route (address node), (c.storages (route (address node))).accepted)) := by
      simp only [sends, hphase]
    rw [hsends]
    refine (h.setStorage hn).sends (by simp [Cluster.setStorage, hphase])
      (by simp [Cluster.setStorage, hphase, RelayPhase.link]) rfl
      ⟨⟨line, hline, ⟨node, hnode, rfl⟩, ?_, ?_⟩, hout⟩ (h.unlinked _)
    · rw [setStorage_self, Node.accept_eq hn]
      simp [Node.accept]
    · rw [setStorage_self, Node.accept_eq hn]
      simp [Node.accept, Net.writeAll_prefix]
  | replies i link hphase hread =>
    obtain ⟨hlinked, hout⟩ := h.fits_of hphase
    refine hsame rfl (h.goes hphase nofun rfl ⟨hlinked, ?_⟩)
    -- What the storage node has sent so far is read at once, so it may be nothing.
    by_cases hsent : c.sentOver link = []
    · refine .inl ((congrArg (· ++ _) hout).trans ?_)
      rw [hsent]
      rfl
    · exact .inr ⟨hsent, congrArg (· ++ _) hout⟩
  | loses i received link hphase =>
    obtain ⟨hlinked, hout⟩ := h.fits_of hphase
    exact hsame rfl (h.goes hphase nofun rfl ⟨hlinked, received, congrArg (· ++ _) hout⟩)

variable {ex : S → Executor} {nodes : List (Text × Int)} {as : List (Act S D)}

/-- What the clients of the entry node have got is what one of the storage nodes has answered: their
lines, `sent`, are handed on once, each over a connection of its own. -/
structure Forwards (W : S → World) (route : Text × Nat → S) (ex : S → Executor) (c : Cluster S D)
    (sent : List (Nat × (S × Nat))) : Prop where
  once : (sent.map Prod.fst).Nodup
  links : (sent.map Prod.snd).Nodup
  linked : ∀ i link, (i, link) ∈ sent → ∃ line, (c.relays i).line = some line ∧
    c.Linked route line link
  tells : ∀ i, c.Tells sent i (c.relays i).output
  serves : ∀ s, ∃ served, (c.storages s).Serves (W s) (ex s) served
  sync : ∀ i link line jwt sql, (c.relays i).phase = .relayed link → (c.relays i).line = some line →
    parseLine line = .sql false jwt sql → (c.relays i).output = ['\n'] ∨
      ∃ res, (c.storages link.1).replies (.handler link.2) = some res ∧
        (c.relays i).output = (Net.readLine (syncReply res)).1 ++ ['\n']

theorem sound_run (h : Machine.run (step W print route) as (new ex nodes) = some c) :
    c.Sound route (Machine.labels (step W print route) (sends route) as (new ex nodes)) :=
  Machine.run_keeps (sends route) (Sound route) [] (fun _ _ _ _ hc hstep =>
    (step_turn hstep).sound hc) (.new ex nodes) h

end

def twoNodes : List (Text × Int) :=
  loadStorages "# storages\n127.0.0.1:7001\n127.0.0.1:7002\n".toList

def twoClients : List (Act Bool Int) :=
  [.accept "0\t\tCREATE DATABASE d;\n".toList, .pick 0, .connect 0 (some [5, 100]), .beat 1 none,
    .storage false (.read 0 1 0), .storage false (.enter (.handler 0)),
    .storage false (.leave (.handler 0) (sampleTick 5) 1), .storage false (.record 0 0 0),
    .storage false (.log 0 2 .all), .reply 0,
    .accept "METRICS\n".toList, .pick 1, .connect 1 none]

def secondPort (address : Text × Nat) : Bool := address.2 = 7002

theorem twoClients_run : ((Machine.run (step (fun _ => sampleWorld) (fun _ => []) secondPort)
    twoClients (new (fun _ => sampleStart) twoNodes)).map fun c =>
      ((c.relays 0).output.take 3, (c.relays 1).output)) =
        some ("OK\t".toList, "ERR\tstorage down\n".toList) := by decide +kernel

end Cluster
end Dbms.Server
