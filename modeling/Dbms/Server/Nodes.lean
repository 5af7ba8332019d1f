import Dbms.Core.Timestamp
import Dbms.Server.Entry

/-! The file that lists the storage nodes. -/

open Dbms.Core

namespace Dbms.Server

/-- A line of the list, and the node that it names. -/
inductive NodeLine : Text → Option (Text × Int) → Prop where
  | comment (s : Text) : NodeLine ('#' :: s) none
  | plain {s : Text} : ':' ∉ s → NodeLine s none
  | node (host : Text) {port : Text} (rest : Text) {v : Int} :
      ':' ∉ host → host.head? ≠ some '#' → IsSignedNumeral port v →
      NoDigit rest → -(2 ^ 31) ≤ v → v < 2 ^ 31 →
      NodeLine (host ++ ':' :: (port ++ rest)) (some (host, v))

theorem NodeLine.storageOf {line : Text} {node : Option (Text × Int)} (h : NodeLine line node) :
    storageOf line = node := by
  unfold Server.storageOf
  cases h with
  | comment s => rw [if_pos (.inr rfl)]
  | plain hcolon =>
    rw [List.idxOf?_eq_none_iff.mpr hcolon]
    exact ite_self _
  | @node host port rest v hcolon hhead hport hrest hlow hhigh =>
    have hnode : ¬(host ++ ':' :: (port ++ rest) = [] ∨
        (host ++ ':' :: (port ++ rest)).head? = some '#') := by
      cases host with
      | nil => simp
      | cons c host => simpa using hhead
    have hatoi : atoi (port ++ rest) = v := by
      unfold atoi
      rw [hport.scanInt32 hrest hlow hhigh]
      rfl
    rw [if_neg hnode, idxOf?_append hcolon, Option.map_some, List.take_left,
      ← List.drop_drop, List.drop_left, List.drop_one, List.tail_cons, hatoi]

/-- The nodes are those that the lines name, in their order. -/
theorem loadStorages_lines (lines : List (Text × Option (Text × Int)))
    (h : ∀ line ∈ lines, NodeLine line.1 line.2 ∧ '\n' ∉ line.1) :
    loadStorages (lines.flatMap fun line => line.1 ++ ['\n']) = lines.filterMap Prod.snd := by
  unfold loadStorages
  induction lines with
  | nil => rfl
  | cons line lines ih =>
    obtain ⟨⟨hline, hbreak⟩, h⟩ := List.forall_mem_cons.mp h
    rw [List.flatMap_cons, List.append_assoc, List.cons_append, List.nil_append,
      List.splitOn_append_cons_self, List.filterMap_append, ih h, List.splitOn_eq_singleton hbreak]
    cases hnode : line.2 <;> simp [hline.storageOf, hnode]

theorem loadStorages_lines_two :
    loadStorages "# storages\n127.0.0.1:07001\n".toList = [("127.0.0.1".toList, 7001)] :=
  loadStorages_lines [("# storages".toList, none),
    ("127.0.0.1:07001".toList, some ("127.0.0.1".toList, 7001))] (by
      have hport : IsSignedNumeral "07001".toList (7001 : Nat) := .plain (by decide)
      have hnode := NodeLine.node "127.0.0.1".toList [] (by decide) (by decide)
        hport nofun (by decide) (by decide)
      rw [List.forall_mem_cons, List.forall_mem_singleton]
      exact ⟨⟨.comment _, by decide⟩, hnode, by decide⟩)

end Dbms.Server
