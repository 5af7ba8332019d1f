import Dbms.Exec.Sound
import Dbms.Sql.Unbroken

/-! A result has no line break in it, whatever the executor has been given so far: statements without
one neither store a line break nor report one. -/

namespace Dbms.Core

def StringPool.Unbroken (pool : StringPool) : Prop := ∀ s ∈ pool.strings, Core.Unbroken s

def Table.Unbroken (t : Table) : Prop := ∀ c ∈ t.cols, Core.Unbroken c.name

def Database.Unbroken (db : Database) : Prop := ∀ tn t, db.tables.lookup tn = some t → t.Unbroken

theorem StringPool.Unbroken.new : StringPool.new.Unbroken := List.forall_mem_singleton.mpr .nil

theorem StringPool.Unbroken.resolve {pool : StringPool} (h : pool.Unbroken) (id : Nat) :
    Core.Unbroken (pool.resolve id) := by
  unfold StringPool.resolve
  rw [List.getD_eq_getElem?_getD]
  cases hs : pool.strings[id]? with
  | none => exact .nil
  | some s => exact h s (List.mem_of_getElem? hs)

theorem StringPool.Unbroken.grows {pool pool' : StringPool} (h : pool.Unbroken)
    (hp : StringPool.Grows Core.Unbroken pool pool') : pool'.Unbroken :=
  fun s hs => (hp.mem hs).elim (h s) id

theorem Database.Unbroken.setTable {db : Database} {tn : Text} {t : Table} (h : db.Unbroken)
    (ht : t.Unbroken) :
    (db.setTable tn t).Unbroken := by
  intro tn' t' ht'
  by_cases htn : tn' = tn
  · subst htn
    obtain rfl := Option.some.inj ((Finmap.lookup_insert _).symm.trans ht')
    exact ht
  · exact h tn' t' ((Finmap.lookup_insert_of_ne _ htn).symm.trans ht')

end Dbms.Core

open Dbms.Core Dbms.Lib Dbms.Sql Dbms.Auth

namespace Dbms.Exec

def ExecResult.Unbroken (res : ExecResult) : Prop :=
  Core.Unbroken res.message ∧ Core.Unbroken res.json

def Printing.Unbroken (print : Printing) : Prop :=
  ∀ vs, Core.Unbroken (print.sumText vs) ∧ Core.Unbroken (print.avgText vs)

structure Executor.Unbroken (ex : Executor) : Prop where
  pool : ex.pool.Unbroken
  databases : ∀ d db, ex.catalog.dbs.lookup d = some db → db.Unbroken

section
variable {α β : Type} {P : α → Prop} {Q : β → Prop} {m : Text}

def Tidy (P : α → Prop) : Except Text α → Prop
  | .ok a => P a
  | .error m => Core.Unbroken m

theorem Tidy.map {r : Except Text α} {f : α → β} (h : Tidy P r) (hf : ∀ a, P a → Q (f a)) :
    Tidy Q (r.map f) := by
  cases r with
  | error m => exact h
  | ok a => exact hf a h

theorem tidy_mapM {f : α → Except Text β} {l : List α} (h : ∀ a ∈ l, Tidy Q (f a)) :
    Tidy (fun bs => ∀ b ∈ bs, Q b) (l.mapM f) := by
  induction l with
  | nil => exact fun _ hb => nomatch hb
  | cons a l ih =>
    obtain ⟨ha, hl⟩ := List.forall_mem_cons.mp h
    rw [List.mapM_cons]
    cases hfa : f a with
    | error m => rwa [hfa] at ha
    | ok b =>
      rw [hfa] at ha
      exact (ih hl).map fun bs hbs => List.forall_mem_cons.mpr ⟨ha, hbs⟩

end

/-! The text of a result. -/

section
variable {s name value : Text} {ss : List Text} {t : Table} {row : Row} {pool : StringPool}
  {w : WhereClause} {items : List SelectItem} {it : SelectItem} {print : Printing}

theorem jsonEscape_unbroken (h : Unbroken s) : Unbroken (jsonEscape s) := by
  refine .flatMap fun c hc => ?_
  have hne : c ≠ '\n' := fun heq => h (heq ▸ hc)
  split
  · exact (Unbroken.nil.cons hne).cons (by decide)
  · exact Unbroken.nil.cons hne

theorem jsonString_unbroken (h : Unbroken s) : Unbroken (jsonString s) :=
  ((jsonEscape_unbroken h).cons (by decide)).append (by decide)

theorem jsonField_unbroken (hname : Unbroken name) (h : Unbroken value) :
    Unbroken (jsonField name value) := (jsonString_unbroken hname).append (h.cons (by decide))

theorem jsonObject_unbroken (h : ∀ s ∈ ss, Unbroken s) : Unbroken (jsonObject ss) :=
  (Unbroken.append (by decide) (.intercalate (by decide) h)).append (by decide)

theorem jsonArray_unbroken (h : ∀ s ∈ ss, Unbroken s) : Unbroken (jsonArray ss) :=
  (Unbroken.append (by decide) (.intercalate (by decide) h)).append (by decide)

theorem cellToJson_unbroken (hpool : pool.Unbroken) (v : Value) : Unbroken (cellToJson v pool) := by
  cases v with
  | null => exact (by decide : Unbroken "null".toList)
  | int v => exact .intText v
  | string id => exact jsonString_unbroken (hpool.resolve id)

theorem itemFields_tidy (ht : t.Unbroken) (hit : it.Unbroken) (hpool : pool.Unbroken) :
    Tidy (fun fields => ∀ s ∈ fields, Unbroken s) (itemFields t row pool it) := by
  unfold itemFields
  split
  · intro s hs
    obtain ⟨i, hi, rfl⟩ := List.mem_mapIdx.mp hs
    exact jsonField_unbroken (ht _ (List.getElem_mem hi)) (cellToJson_unbroken hpool _)
  · split
    · exact (by decide : Unbroken "unknown column".toList)
    · refine List.forall_mem_singleton.mpr (jsonField_unbroken ?_ (cellToJson_unbroken hpool _))
      split
      · exact hit.1
      · exact hit.2

theorem rowObject_tidy (ht : t.Unbroken) (hitems : ∀ it ∈ items, it.Unbroken) (row : Row)
    (hpool : pool.Unbroken) : Tidy Unbroken (rowObject t items row pool) :=
  (tidy_mapM fun it hit => itemFields_tidy ht (hitems it hit) hpool).map fun fields hfields =>
    jsonObject_unbroken fun s hs => by
      obtain ⟨fs, hfs, hmem⟩ := List.mem_flatten.mp hs
      exact hfields fs hfs s hmem

theorem selectRows_tidy (ht : t.Unbroken) (hitems : ∀ it ∈ items, it.Unbroken)
    (hw : ∀ s ∈ whereStrings w, Unbroken s) (regex : Regex) (ids : List RowId) (hpool : pool.Unbroken)
    (err : Text) :
    Tidy (fun objs => ∀ s ∈ objs, Unbroken s) (selectRows regex w t items ids pool err).1 := by
  induction ids generalizing pool err with
  | nil => exact fun _ hs => nomatch hs
  | cons rid ids ih =>
    unfold selectRows
    split
    · exact ih hpool err
    rename_i rw hrow
    have heval := hpool.grows (evalWhere_grows hw regex t rw pool err)
    dsimp only
    split
    · have hobj := rowObject_tidy ht hitems rw heval
      split <;> rename_i hrun <;> rw [hrun] at hobj
      · exact hobj
      · exact (ih heval _).map fun objs hobjs => List.forall_mem_cons.mpr ⟨hobj, hobjs⟩
    · exact ih heval _

theorem aggregateName_unbroken (hit : it.Unbroken) : Unbroken (aggregateName it) := by
  unfold aggregateName
  split
  · exact hit.2
  · split
    · decide
    · exact hit.1

theorem intCells_tidy (i : Nat) (rows : List Row) : Tidy (fun _ => True) (intCells i rows) := by
  induction rows with
  | nil => trivial
  | cons row rows ih =>
    unfold intCells
    split
    · exact ih
    · exact ih.map fun _ _ => trivial
    · exact (by decide : Unbroken "SUM/AVG on non-int".toList)

theorem aggregateValue_tidy (hprint : print.Unbroken) (t : Table) (rows : List Row) (it : SelectItem) :
    Tidy Unbroken (aggregateValue print t rows it) := by
  unfold aggregateValue
  cases it.agg with
  | count => exact .natText _
  | sum =>
    refine Tidy.map (P := fun _ => True) ?_ fun vs _ => (hprint vs).1
    split
    · exact (by decide : Unbroken "bad agg col".toList)
    · exact intCells_tidy _ rows
  | avg =>
    refine Tidy.map (P := fun _ => True) ?_ fun vs _ => ?_
    · split
      · exact (by decide : Unbroken "bad agg col".toList)
      · exact intCells_tidy _ rows
    · split
      · decide
      · exact (hprint vs).2
  | none => exact (by decide : Unbroken "aggregate required".toList)

theorem aggregateObject_tidy (hprint : print.Unbroken) (hitems : ∀ it ∈ items, it.Unbroken) (t : Table)
    (rows : List Row) : Tidy Unbroken (aggregateObject print t rows items) := by
  refine (tidy_mapM fun it hit => ?_).map fun fields hfields => jsonObject_unbroken hfields
  exact (aggregateValue_tidy hprint t rows it).map fun value hvalue =>
    jsonField_unbroken (aggregateName_unbroken (hitems it hit)) hvalue

end
end Dbms.Exec
