import Dbms.Server.Answers
import Dbms.Core.Journaled

/-! What a storage node writes down of the requests for statements: a line in the access log and an
entry of the statistics for each. -/

open Dbms.Core Dbms.Exec Dbms.Lib Dbms.Auth

namespace Dbms.Server

theorem parseLine_sql {line jwt sql : Text} {b : Bool} (h : parseLine line = .sql b jwt sql) :
    ∃ first, line = first ++ '\t' :: (jwt ++ '\t' :: sql) := by
  have htab : ∀ {c : Char} {s rest : Text}, s.dropWhile notTab = c :: rest → c = '\t' := by
    intro c s rest hs
    have hc := List.head_dropWhile_not notTab (l := s) (by simp [hs])
    simpa [hs, notTab] using hc
  unfold parseLine at h
  split at h
  · cases h
  split at h
  · cases h
  split at h
  · cases h
  rename_i c rest hfirst
  split at h
  · cases h
  rename_i c' sql' hsecond
  cases h
  refine ⟨line.takeWhile notTab, ?_⟩
  obtain rfl := htab hfirst
  obtain rfl := htab hsecond
  rw [← hsecond, List.takeWhile_append_dropWhile, ← hfirst, List.takeWhile_append_dropWhile]

namespace Handler
variable {h : Handler}

def Logged (h : Handler) : Prop :=
  match h.phase with
  | .logged _ _ | .closed (some _) => True
  | .closed none => ∃ jwt sql, h.asks = some (.sql true jwt sql)
  | _ => False

def Counted (h : Handler) : Prop :=
  match h.phase with
  | .recorded _ _ _ | .closed (some _) => True
  | .closed none => ∃ jwt sql, h.asks = some (.sql true jwt sql)
  | _ => False

theorem asks_line {b : Bool} {jwt sql : Text} (ha : h.asks = some (.sql b jwt sql)) :
    '\n' ∉ sql := by
  cases hline : Net.readLine h.input with
  | mk line rest =>
    unfold asks at ha
    rw [hline] at ha
    cases rest with
    | none => cases ha
    | some rest =>
      obtain ⟨first, hsplit⟩ := parseLine_sql (Option.some.inj ha)
      refine fun hmem => (Net.readLine_eq hline).1 ?_
      rw [hsplit]
      simp [hmem]

end Handler

namespace Node
variable {D : Type} {n n' : Node D} {i j : Nat} {W : World}

/-- The line that a step writes in the access log, for which connection, and what of it is stored. -/
def logs (e : Event D) (n : Node D) : Option (Nat × Stored × Text) :=
  match e with
  | .log i t1 stored =>
    match (n.handlers i).phase with
    | .recorded sql t0 res =>
      some (i, stored, logLine "tcp".toList (handlerId i) sql t0 t1 (if res.ok then 200 else 400))
    | .submitted _ sql t0 => some (i, stored, logLine "tcp".toList (handlerId i) sql t0 t1 202)
    | _ => none
  | _ => none

/-- The call of `record_request` of a step, and for which connection. -/
def counts [Zero D] (e : Event D) (n : Node D) : Option (Nat × Int × Bool × D) :=
  match e with
  | .record i now ms =>
    match (n.handlers i).phase with
    | .executed _ _ res => some (i, now, !res.ok, ms)
    | .logged _ _ => if n.inJob i then none else some (i, now, false, 0)
    | _ => none
  | _ => none

def Noted (n : Node D) (i : Nat) (line : Text) : Prop :=
  ∃ jwt sql t0 t1 code, line = logLine "tcp".toList (handlerId i) sql t0 t1 code ∧
    (((n.handlers i).asks = some (.sql true jwt sql) ∧ code = 202) ∨
      ((n.handlers i).asks = some (.sql false jwt sql) ∧ ∃ res,
        (n.handlers i).phase = .closed (some res) ∧ code = if res.ok then 200 else 400))

theorem setHandler_iff {m : Node D} {h : Handler} (P : Handler → Prop)
    (hm : m.handlers = n.handlers) (hP : P h ↔ P (n.handlers i)) (k : Nat) :
    P ((m.setHandler i h).handlers k) ↔ P (n.handlers k) := by
  by_cases hk : k = i
  · subst hk
    rwa [setHandler_self]
  · rw [setHandler_of_ne hk, hm]

theorem setHandler_marks {m : Node D} {h : Handler} (P : Handler → Prop)
    (hm : m.handlers = n.handlers) (hP : P h) (k : Nat) :
    P ((m.setHandler i h).handlers k) ↔ P (n.handlers k) ∨ i = k := by
  by_cases hk : k = i
  · subst hk
    rw [setHandler_self]
    simp [hP]
  · rw [setHandler_of_ne hk, hm]
    simp [Ne.symm hk]

/-- A step marks the connection that it has a label for, and no other. -/
def Marks {β : Type} (P : Handler → Prop) (label : Option (Nat × β)) (n n' : Node D) : Prop :=
  (∀ b, label = some b → ¬P (n.handlers b.1)) ∧
    ∀ i, P (n'.handlers i) ↔ P (n.handlers i) ∨ ∃ b, label = some b ∧ b.1 = i

theorem Marks.none {β : Type} {P : Handler → Prop}
    (h : ∀ i, P (n'.handlers i) ↔ P (n.handlers i)) : Marks P (none : Option (Nat × β)) n n' := by
  simpa [Marks] using h

theorem Marks.some {β : Type} {P : Handler → Prop} {b : β} (hnot : ¬P (n.handlers i))
    (h : ∀ j, P (n'.handlers j) ↔ P (n.handlers j) ∨ i = j) : Marks P (some (i, b)) n n' := by
  refine ⟨?_, fun j => ?_⟩
  · rintro _ ⟨⟩
    exact hnot
  · rw [h]
    simp

theorem Move.logged [Zero D] {e : Event D} (hm : Move W 0 n e n') (hs : n.Sane) :
    Marks Handler.Logged (n.logs e) n n' := by
  cases hm with
  | accept input =>
    have habsent := hs.tidy.handlers n.accepted le_rfl
    exact .none (setHandler_iff _ rfl (by simp [Handler.Logged, habsent]))
  | closes i t0 now reply hphase hasks _ _ =>
    refine .none (setHandler_iff _ rfl (iff_of_false ?_ (by simp [Handler.Logged, hphase])))
    rintro ⟨jwt, sql, ha⟩
    exact hasks true jwt sql ha
  | starts i t0 _ b jwt sql hphase _ =>
    exact .none (setHandler_iff _ rfl (by cases b <;> simp [Handler.Logged, hphase]))
  | enters i _ _ _ hphase | executes i _ _ _ _ _ _ _ hphase | records i _ _ _ _ _ hphase =>
    exact .none (setHandler_iff _ rfl (by simp [Handler.Logged, hphase]))
  | submits i _ _ _ _ hphase =>
    exact .none (setHandler_iff _ rfl (by simp [Handler.Logged, hphase]))
  | leaves i _ _ jwt sql hphase =>
    have hasks := (hs.fits i).captures (by rw [hphase]; rfl : _ = some (jwt, sql))
    exact .none (setHandler_iff _ rfl (iff_of_true ⟨jwt, sql, hasks⟩ (by simp [Handler.Logged, hphase])))
  | logs i t0 t1 stored sql res hphase =>
    simp only [Node.logs, hphase]
    exact .some (by simp [Handler.Logged, hphase]) (setHandler_marks _ rfl trivial)
  | notes i t0 t1 stored jwt sql hphase =>
    simp only [Node.logs, hphase]
    exact .some (by simp [Handler.Logged, hphase]) (setHandler_marks _ rfl trivial)
  | stops e fate hcalls _ =>
    cases e <;> cases hcalls <;> exact .none fun _ => Iff.rfl
  | outlived | begins | works | stores => exact .none fun _ => Iff.rfl

theorem counts_outlived [Zero D] {now : Int} {ms : D} {jwt sql : Text}
    (hphase : (n.handlers i).phase = .logged jwt sql) (hjob : n.inJob i = true) :
    n.counts (.record i now ms) = none := by simp [Node.counts, hphase, hjob]

theorem counts_leaves [Zero D] {now : Int} {ms : D} {jwt sql : Text}
    (hphase : (n.handlers i).phase = .logged jwt sql) (hjob : n.inJob i = false) :
    n.counts (.record i now ms) = some (i, now, false, 0) := by simp [Node.counts, hphase, hjob]

theorem Move.counted [Zero D] {e : Event D} (hm : Move W 0 n e n') (hs : n.Sane) :
    Marks Handler.Counted (n.counts e) n n' := by
  cases hm with
  | accept input =>
    have habsent := hs.tidy.handlers n.accepted le_rfl
    exact .none (setHandler_iff _ rfl (by simp [Handler.Counted, habsent]))
  | closes i t0 now reply hphase hasks _ _ =>
    refine .none (setHandler_iff _ rfl (iff_of_false ?_ (by simp [Handler.Counted, hphase])))
    rintro ⟨jwt, sql, ha⟩
    exact hasks true jwt sql ha
  | starts i t0 _ b jwt sql hphase _ =>
    exact .none (setHandler_iff _ rfl (by cases b <;> simp [Handler.Counted, hphase]))
  | enters i _ _ _ hphase | executes i _ _ _ _ _ _ _ hphase | logs i _ _ _ _ _ hphase
  | notes i _ _ _ _ _ hphase =>
    exact .none (setHandler_iff _ rfl (by simp [Handler.Counted, hphase]))
  | submits i _ _ _ _ hphase =>
    exact .none (setHandler_iff _ rfl (by simp [Handler.Counted, hphase]))
  | records i now ms sql t0 res hphase =>
    simp only [Node.counts, hphase]
    exact .some (by simp [Handler.Counted, hphase]) (setHandler_marks _ rfl trivial)
  | leaves i now ms jwt sql hphase hjob =>
    have hasks := (hs.fits i).captures (by rw [hphase]; rfl : _ = some (jwt, sql))
    rw [counts_leaves hphase hjob]
    exact .some (by simp [Handler.Counted, hphase]) (setHandler_marks _ rfl ⟨jwt, sql, hasks⟩)
  | stops e fate hcalls _ =>
    cases e <;> cases hcalls <;> exact .none fun _ => Iff.rfl
  | outlived i now ms jwt sql hphase hjob =>
    rw [counts_outlived hphase hjob]
    exact .none fun _ => Iff.rfl
  | begins | works | stores => exact .none fun _ => Iff.rfl

theorem Move.text {e : Event D} {z : D} (hm : Move W z n e n') : n'.accessLog =
    n.accessLog ++ (n.logs e).toList.flatMap fun b => b.2.1.part b.2.2 := by
  cases hm with
  | logs i t0 t1 stored sql res hphase =>
    simp [Node.logs, hphase, answer, note, Node.setHandler]
  | notes i t0 t1 stored jwt sql hphase =>
    simp [Node.logs, hphase, advance, note, Node.setHandler]
  | stops e fate hcalls _ =>
    cases e <;> cases hcalls <;> exact (List.append_nil _).symm
  | _ => exact (List.append_nil _).symm

def calls (counted : List (Nat × Int × Bool × D)) : List (Int × Server.Call D) :=
  counted.map fun c => (c.2.1, .recordRequest c.2.2.1 c.2.2.2)

theorem Move.tele [Zero D] {e : Event D} (hm : Move W 0 n e n')
    {counted : List (Nat × Int × Bool × D)} (h : n.tele = Server.run (calls counted)) :
    n'.tele = Server.run (calls (counted ++ (n.counts e).toList)) := by
  have hsnoc : ∀ c, Server.run (calls (counted ++ [c])) =
      n.tele.recordRequest c.2.1 c.2.2.1 c.2.2.2 := by
    intro c
    rw [h]
    simp [Server.run, calls]
  cases hm with
  | records i now ms sql t0 res hphase =>
    simp only [Node.counts, hphase]
    exact (hsnoc (i, now, !res.ok, ms)).symm
  | leaves i now ms jwt sql hphase hjob =>
    rw [counts_leaves hphase hjob]
    exact (hsnoc (i, now, false, 0)).symm
  | outlived i now ms jwt sql hphase hjob =>
    rw [counts_outlived hphase hjob]
    exact h.trans (by simp)
  | stops e fate hcalls _ =>
    cases e <;> cases hcalls <;> exact h.trans (by simp [Node.counts])
  | _ => exact h.trans (by simp [Node.counts])

theorem Move.noted {e : Event D} {z : D} (hm : Move W z n e n') (hs : n.Sane) {b : Nat × Stored × Text}
    (hb : n.logs e = some b) : n'.Noted b.1 b.2.2 := by
  cases hm with
  | logs i t0 t1 stored sql res hphase =>
    have hfits := hs.fits i
    unfold Handler.Fits at hfits
    rw [hphase] at hfits
    obtain ⟨⟨jwt, hasks⟩, -⟩ := hfits
    simp only [Node.logs, hphase] at hb
    obtain rfl := Option.some.inj hb
    refine ⟨jwt, sql, t0, t1, _, rfl, .inr ⟨?_, res, ?_, rfl⟩⟩
    · rw [answer_self]
      exact hasks
    · rw [answer_self]
  | notes i t0 t1 stored jwt sql hphase =>
    have hasks := (hs.fits i).captures (by rw [hphase]; rfl : _ = some (jwt, sql))
    simp only [Node.logs, hphase] at hb
    obtain rfl := Option.some.inj hb
    refine ⟨jwt, sql, t0, t1, 202, rfl, .inl ⟨?_, rfl⟩⟩
    rw [advance_self]
    exact hasks
  | stops e fate hcalls _ => cases e <;> cases hcalls <;> cases hb
  | _ => cases hb

theorem Noted.later {line : Text} (hn : n.Noted i line) (hs : n.Sane) (hx : n.Extends n') :
    n'.Noted i line := by
  obtain ⟨jwt, sql, t0, t1, code, rfl, ⟨hasks, hcode⟩ | ⟨hasks, res, hphase, hcode⟩⟩ := hn
  · exact ⟨jwt, sql, t0, t1, code, rfl, .inl ⟨hx.asks hs hasks, hcode⟩⟩
  · refine ⟨jwt, sql, t0, t1, code, rfl, .inr ⟨hx.asks hs hasks, res, ?_, hcode⟩⟩
    rwa [hx.closed i _ hphase]

theorem Noted.line {line : Text} (hn : n.Noted i line) : ∃ s, line = s ++ ['\n'] ∧ '\n' ∉ s := by
  obtain ⟨jwt, sql, t0, t1, code, rfl, hasks⟩ := hn
  have hsql : '\n' ∉ sql := by
    rcases hasks with ⟨hasks, -⟩ | ⟨hasks, -⟩ <;> exact Handler.asks_line hasks
  refine ⟨_, rfl, ?_⟩
  have hnat : ∀ m, '\n' ∉ natText m := Journal.notMem_natText rfl
  simp [handlerId, hsql, hnat]

def Rated (n : Node D) (i : Nat) (error : Bool) : Prop :=
  (∃ res, n.replies (.handler i) = some res ∧ error = !res.ok) ∨
    (∃ jwt sql, (n.handlers i).asks = some (.sql true jwt sql)) ∧ error = false

theorem Move.replies {e : Event D} {z : D} (hm : Move W z n e n') (ht : n.Tidy) {o : Origin}
    {res : ExecResult} (h : n.replies o = some res) : n'.replies o = some res := by
  have hserial := hm.serial ht
  cases hserves : n.serves W e with
  | none =>
    rw [hserves] at hserial
    exact (congrFun (congrArg Serial.replies (Option.some.inj hserial)) o).symm.trans h
  | some s =>
    rw [hserves] at hserial
    obtain ⟨s₁, hs₁, hrun⟩ := Machine.run_cons.mp hserial
    obtain rfl := Option.some.inj hrun
    obtain ⟨hnone, r, -, -, hreplies⟩ := Serial.step_eq hs₁
    have hne : o ≠ s.origin := by
      rintro rfl
      cases hnone.symm.trans h
    have hkeep := congrFun hreplies o
    rw [Function.update_of_ne hne] at hkeep
    exact hkeep.trans h

theorem Move.rated [Zero D] {e : Event D} (hm : Move W 0 n e n') (hs : n.Sane)
    {c : Nat × Int × Bool × D} (hc : n.counts e = some c) : n'.Rated c.1 c.2.2.1 := by
  cases hm with
  | records i now ms sql t0 res hphase =>
    simp only [Node.counts, hphase] at hc
    obtain rfl := Option.some.inj hc
    exact .inl ⟨res, by simp [Node.replies, Phase.reply], rfl⟩
  | leaves i now ms jwt sql hphase hjob =>
    have hasks := (hs.fits i).captures (by rw [hphase]; rfl : _ = some (jwt, sql))
    rw [counts_leaves hphase hjob] at hc
    obtain rfl := Option.some.inj hc
    refine .inr ⟨⟨jwt, sql, ?_⟩, rfl⟩
    rw [advance_self]
    exact hasks
  | outlived i now ms jwt sql hphase hjob =>
    rw [counts_outlived hphase hjob] at hc
    cases hc
  | stops e fate hcalls _ => cases e <;> cases hcalls <;> cases hc
  | _ => cases hc

/-- What becomes of a line is what became of it when it was written. -/
theorem logs_event {e : Event D} {b : Nat × Stored × Text} (h : n.logs e = some b) :
    ∃ t1, e = .log b.1 t1 b.2.1 := by
  unfold Node.logs at h
  split at h
  · split at h
    · obtain rfl := Option.some.inj h
      exact ⟨_, rfl⟩
    · obtain rfl := Option.some.inj h
      exact ⟨_, rfl⟩
    · cases h
  · cases h

/-- What has got into a file of some lines. -/
def written (logged : List (Nat × Stored × Text)) : Text :=
  logged.flatMap fun b => b.2.1.part b.2.2

/-- The two books of a node: the access log with a line for each of `logged`, and the statistics with
an entry for each of `counted`. -/
structure Books (es : List (Event D)) (n : Node D) (logged : List (Nat × Stored × Text))
    (counted : List (Nat × Int × Bool × D)) : Prop where
  text : n.accessLog = written logged
  logged_once : (logged.map Prod.fst).Nodup
  logged_all : ∀ i, i ∈ logged.map Prod.fst ↔ (n.handlers i).Logged
  stored : ∀ b ∈ logged, ∃ t1, Event.log b.1 t1 b.2.1 ∈ es
  noted : ∀ b ∈ logged, n.Noted b.1 b.2.2 ∧ ∃ s, b.2.2 = s ++ ['\n'] ∧ '\n' ∉ s
  tele : n.tele = Server.run (calls counted)
  counted_once : (counted.map Prod.fst).Nodup
  counted_all : ∀ i, i ∈ counted.map Prod.fst ↔ (n.handlers i).Counted
  rated : ∀ c ∈ counted, n.Rated c.1 c.2.2.1

section
variable [Zero D] [Add D] [Div D] [NatCast D] {print : Snapshot D → Text} {ex : Executor}
  {es : List (Event D)}

theorem run_written (h : Machine.run (Node.step W print) es (.new ex) = some n) :
    (n.accessLog = written (Machine.labels (Node.step W print) logs es (.new ex)) ∧
      ∀ b ∈ Machine.labels (Node.step W print) logs es (.new ex), n.Noted b.1 b.2.2) ∧
    n.tele = Server.run (calls (Machine.labels (Node.step W print) counts es (.new ex))) ∧
      ∀ c ∈ Machine.labels (Node.step W print) counts es (.new ex), n.Rated c.1 c.2.2.1 := by
  constructor
  · refine (Machine.run_keeps logs (fun (m : Node D) (logged : List (Nat × Stored × Text)) =>
      m.Sane ∧ m.accessLog = written logged ∧ ∀ b ∈ logged, m.Noted b.1 b.2.2) [] ?_
      ⟨.new ex, rfl, by simp⟩ h).2
    rintro e m m' logged ⟨hs, htext, hall⟩ hstep
    have hm := step_move hstep
    refine ⟨hm.sane hs, ?_, fun b hb => ?_⟩
    · rw [hm.text, htext, written, written, List.flatMap_append]
    · rcases List.mem_append.mp hb with hb | hb
      · exact (hall b hb).later hs (hm.extends hs.tidy)
      · exact hm.noted hs (Option.mem_toList.mp hb)
  · refine (Machine.run_keeps counts (fun (m : Node D) (counted : List (Nat × Int × Bool × D)) =>
      m.Sane ∧ m.tele = Server.run (calls counted) ∧ ∀ c ∈ counted, m.Rated c.1 c.2.2.1) [] ?_
      ⟨.new ex, rfl, by simp⟩ h).2
    rintro e m m' counted ⟨hs, htele, hall⟩ hstep
    have hm := step_move hstep
    refine ⟨hm.sane hs, hm.tele htele, fun c hc => ?_⟩
    rcases List.mem_append.mp hc with hc | hc
    · rcases hall c hc with ⟨res, hres, herror⟩ | ⟨⟨jwt, sql, hasks⟩, herror⟩
      · exact .inl ⟨res, hm.replies hs.tidy hres, herror⟩
      · exact .inr ⟨⟨jwt, sql, (hm.extends hs.tidy).asks hs hasks⟩, herror⟩
    · exact hm.rated hs (Option.mem_toList.mp hc)

theorem run_marked {β : Type} {P : Handler → Prop} {label : Event D → Node D → Option (Nat × β)}
    (hmark : ∀ {m m' : Node D} {e : Event D}, Move W 0 m e m' → m.Sane → Marks P (label e m) m m')
    (hnew : ¬P ⟨[], .absent, []⟩) (h : Machine.run (Node.step W print) es (.new ex) = some n) :
    ((Machine.labels (Node.step W print) label es (.new ex)).map Prod.fst).Nodup ∧
      ∀ i, i ∈ (Machine.labels (Node.step W print) label es (.new ex)).map Prod.fst ↔
        P (n.handlers i) := by
  have hall := Machine.labels_once label Prod.fst (fun (m : Node D) i => P (m.handlers i)) Sane ?_
    (Sane.new ex) h
  · refine ⟨hall.1, fun i => ?_⟩
    rw [hall.2.2 i]
    exact (or_iff_right hnew).symm
  · intro e m m' hs hstep
    have hm := step_move hstep
    exact ⟨hm.sane hs, hmark hm hs⟩

end

end Node
end Dbms.Server
