import Dbms.Lib.RoundRobin
import Dbms.Server.Forwards

/-! The lines of the clients are handed to the storage nodes in turn. -/

open Dbms.Core Dbms.Exec Dbms.Lib Dbms.Auth

namespace Dbms.Server

namespace Cluster
variable {S D : Type} {W : S → World} {route : Text × Nat → S} {c c' : Cluster S D} {a : Act S D}
  {i : Nat} {nodes : List (Text × Int)} {picked : List (Nat × Nat)}

/-- Who has been given which storage node, by its number in the list, in the order of `picked`. -/
structure Turns (route : Text × Nat → S) (nodes : List (Text × Int)) (c : Cluster S D)
    (picked : List (Nat × Nat)) : Prop where
  same : c.nodes = nodes
  rr : c.rr = picked.length % 2 ^ 64
  once : (picked.map Prod.fst).Nodup
  order : picked.map Prod.snd = (List.range picked.length).map fun m => m % 2 ^ 64 % nodes.length
  fresh : ∀ i, (c.relays i).phase = .absent ∨ (c.relays i).phase = .opened → i ∉ picked.map Prod.fst
  node : ∀ i line node, (c.relays i).phase = .picked line node →
    ∃ idx, (i, idx) ∈ picked ∧ nodes[idx]? = some node
  link : ∀ i link, (c.relays i).phase.link = some link →
    ∃ idx node, (i, idx) ∈ picked ∧ nodes[idx]? = some node ∧ route (address node) = link.1

theorem Turns.new (ex : S → Executor) (nodes : List (Text × Int)) :
    (new ex nodes : Cluster S D).Turns route nodes [] where
  same := rfl
  rr := rfl
  once := List.nodup_nil
  order := rfl
  fresh _ _ := List.not_mem_nil
  node _ _ _ h := nomatch h
  link _ _ h := nomatch h

theorem Turns.inside (h : c.Turns route nodes picked) (storages : S → Node D) :
    Turns route nodes { c with storages := storages } picked :=
  ⟨h.same, h.rr, h.once, h.order, h.fresh, h.node, h.link⟩

theorem Turns.setRelay {r : Relay S} (h : c.Turns route nodes picked)
    (hfresh : r.phase = .absent ∨ r.phase = .opened → i ∉ picked.map Prod.fst)
    (hnode : ∀ line node, r.phase = .picked line node →
      ∃ idx, (i, idx) ∈ picked ∧ nodes[idx]? = some node)
    (hlink : ∀ link, r.phase.link = some link → ∃ idx node, (i, idx) ∈ picked ∧
      nodes[idx]? = some node ∧ route (address node) = link.1) :
    (c.setRelay i r).Turns route nodes picked where
  same := h.same
  rr := h.rr
  once := h.once
  order := h.order
  fresh := (Function.forall_update_iff c.relays fun j r =>
    r.phase = .absent ∨ r.phase = .opened → j ∉ picked.map Prod.fst).mpr
      ⟨hfresh, fun j _ => h.fresh j⟩
  node := (Function.forall_update_iff c.relays fun j r => ∀ line node,
    r.phase = .picked line node → ∃ idx, (j, idx) ∈ picked ∧ nodes[idx]? = some node).mpr
      ⟨hnode, fun j _ => h.node j⟩
  link := (Function.forall_update_iff c.relays fun j r => ∀ link, r.phase.link = some link →
    ∃ idx node, (j, idx) ∈ picked ∧ nodes[idx]? = some node ∧ route (address node) = link.1).mpr
      ⟨hlink, fun j _ => h.link j⟩

theorem advance_setRelay {r : Relay S} {phase : RelayPhase S} :
    (c.advance i phase).setRelay i r = c.setRelay i r := by
  simp [advance, setRelay]

theorem Turns.pickStorage_of_neg (h : c.Turns route nodes picked) (hlen : nodes.length ≤ 2 ^ 31)
    (hneg : c.pickStorage.1 < 0) : c.pickStorage.2 = c := by
  have hnil : c.nodes = [] :=
    (lacking_of_neg hneg).resolve_right fun hlong => absurd (h.same ▸ hlen) (Nat.not_le.mpr hlong)
  unfold pickStorage
  rw [if_pos hnil]

theorem Turns.next (h : c.Turns route nodes picked) (hphase : (c.relays i).phase = .opened) :
    ({ c with rr := (c.rr + 1) % 2 ^ 64 }.advance i .refused).Turns route nodes
      (picked ++ [(i, c.rr % nodes.length)]) where
  same := h.same
  rr := by
    show (c.rr + 1) % 2 ^ 64 = _
    rw [List.length_append, List.length_singleton, h.rr, Nat.mod_add_mod]
  once := by
    rw [List.map_append, List.map_singleton, ← List.concat_eq_append]
    exact List.Nodup.concat (h.fresh i (.inr hphase)) h.once
  order := by
    rw [List.map_append, h.order, List.length_append, List.length_singleton, List.range_succ,
      List.map_append, h.rr]
    rfl
  fresh := (Function.forall_update_iff c.relays fun j r => r.phase = .absent ∨ r.phase = .opened →
    j ∉ (picked ++ [(i, c.rr % nodes.length)]).map Prod.fst).mpr
      ⟨nofun, fun j hj hfresh => by simpa [hj] using h.fresh j hfresh⟩
  node := (Function.forall_update_iff c.relays fun j r => ∀ line node,
    r.phase = .picked line node → ∃ idx, (j, idx) ∈ picked ++ [(i, c.rr % nodes.length)] ∧
      nodes[idx]? = some node).mpr ⟨nofun, fun j _ line node hp =>
        (h.node j line node hp).imp fun idx hidx => hidx.imp_left (List.mem_append_left _)⟩
  link := (Function.forall_update_iff c.relays fun j r => ∀ link, r.phase.link = some link →
    ∃ idx node, (j, idx) ∈ picked ++ [(i, c.rr % nodes.length)] ∧ nodes[idx]? = some node ∧
      route (address node) = link.1).mpr ⟨nofun, fun j _ link hp =>
        (h.link j link hp).imp fun idx => Exists.imp fun node hidx =>
          hidx.imp_left (List.mem_append_left _)⟩

section
variable [DecidableEq S] [Zero D] [Add D] [Div D] [NatCast D] {print : Snapshot D → Text}
  {ex : S → Executor} {as : List (Act S D)}

theorem Turn.turns {sent : List (Nat × (S × Nat))} (ht : Turn W print route c a c')
    (hs : c.Sound route sent) (h : c.Turns route nodes picked) (hlen : nodes.length ≤ 2 ^ 31) :
    c'.Turns route nodes (picked ++ (Cluster.picks a c).toList) := by
  have hsame : Cluster.picks a c = none → c'.Turns route nodes picked →
      c'.Turns route nodes (picked ++ (Cluster.picks a c).toList) := by
    intro hnone hc
    rwa [hnone, Option.toList_none, List.append_nil]
  cases ht with
  | inside | beats => exact hsame rfl (h.inside _)
  | misses => exact hsame rfl h
  | accept input =>
    refine hsame rfl (Turns.setRelay (c := { c with accepted := c.accepted + 1 })
      ⟨h.same, h.rr, h.once, h.order, h.fresh, h.node, h.link⟩
      (fun _ => h.fresh _ (.inl (hs.tidy _ le_rfl))) nofun nofun)
  | leaves i hphase hline => exact hsame (by simp [Cluster.picks, hline]) (h.setRelay nofun nofun nofun)
  -- Only an empty list lacks a node, for an `int` holds every number of this one.
  | lacks i line hphase hline hneg =>
    refine hsame (by simp [Cluster.picks, hneg]) ?_
    rw [h.pickStorage_of_neg hlen hneg]
    exact h.setRelay nofun nofun nofun
  | picks i line node hphase hline hnonneg hnode =>
    obtain rfl := h.same
    have hne : c.nodes ≠ [] := by
      intro hnil
      rw [hnil] at hnode
      cases hnode
    have hpick := pickStorage_eq hne hlen
    have hpicks : Cluster.picks (.pick i) c = some (i, c.rr % c.nodes.length) := by
      dsimp only [Cluster.picks]
      rw [if_neg (not_or.mpr ⟨by simp [hline], Int.not_lt.mpr hnonneg⟩), hpick, Int.toNat_natCast]
    rw [hpicks, Option.toList_some]
    rw [hpick, Int.toNat_natCast] at hnode
    rw [hpick]
    have hnext := (h.next hphase).setRelay (i := i)
      (r := { c.relays i with phase := .picked line node }) nofun
      (fun line' node' hp => ⟨_, List.mem_append_right _ List.mem_cons_self, by
        cases hp
        exact hnode⟩) nofun
    rwa [advance_setRelay] at hnext
  | fails i line node hphase => exact hsame rfl (h.setRelay nofun nofun nofun)
  -- A connection is made to the node that was picked, not picked again.
  | connects i wrote line node n hphase hn =>
    obtain ⟨idx, hidx, hnode⟩ := h.node i line node hphase
    refine hsame rfl ((h.inside _).setRelay nofun nofun fun link hlink => ?_)
    cases hlink
    exact ⟨idx, node, hidx, hnode, rfl⟩
  | replies i link hphase | loses i _ link hphase =>
    refine hsame rfl (h.setRelay nofun nofun fun link' hlink => ?_)
    cases hlink
    exact h.link i link (by rw [hphase]; rfl)

end

end Cluster
end Dbms.Server
