import Dbms.Lib.Loop
import Mathlib.Logic.Function.Basic
import Mathlib.Data.List.Basic

/-! The B+ tree index over a heap of nodes with parent links and a leaf chain. A pointer is a
number; the nodes made by `new` are those below `size`. Only the sign of `cmp` is read. -/

open Dbms.Lib

namespace Dbms.Core

abbrev RowId := Nat

structure Node (κ : Type*) where
  leaf : Bool := true
  parent : Option Nat := none
  keys : List κ := []
  rows : List RowId := []
  ch : List Nat := []
  next : Option Nat := none

structure BPlusTreeIndex (κ : Type*) where
  order : Nat
  root : Option Nat := none
  heap : Nat → Node κ := fun _ => {}
  size : Nat := 0

namespace BPlusTreeIndex
variable {κ : Type*}

def new (order : Int) : BPlusTreeIndex κ := { order := (max 4 order).toNat }

/-- Every node hangs below the root, so `free_tree` leaves an empty heap. -/
def clear (t : BPlusTreeIndex κ) : BPlusTreeIndex κ := { order := t.order }

def modify (t : BPlusTreeIndex κ) (a : Nat) (f : Node κ → Node κ) : BPlusTreeIndex κ :=
  { t with heap := Function.update t.heap a (f (t.heap a)) }

/-- `new Node{}` with its fields filled in; its address is the old `size`. -/
def alloc (t : BPlusTreeIndex κ) (n : Node κ) : BPlusTreeIndex κ :=
  { t with heap := Function.update t.heap t.size n, size := t.size + 1 }

section Search
variable (cmp : κ → κ → Int)

def findLeafStep (t : BPlusTreeIndex κ) (k : κ) (cur : Nat) : Option Nat :=
  let n := t.heap cur
  if n.leaf then none else n.ch[n.keys.findIdx (fun s => 0 < cmp s k)]?

def findLeaf (t : BPlusTreeIndex κ) (r : Nat) (k : κ) : Nat :=
  iterate (findLeafStep cmp t k) t.size r

def scanLeaf (pick stop : κ → Bool) : List (κ × RowId) → List RowId × Bool
  | [] => ([], false)
  | (k, r) :: es =>
    let out := if pick k then [r] else []
    if stop k then (out, true)
    else ((out ++ (scanLeaf pick stop es).1), (scanLeaf pick stop es).2)

def scanFrom (t : BPlusTreeIndex κ) (pick stop : κ → Bool) : Nat → Option Nat → List RowId
  | 0, _ => []
  | _, none => []
  | n + 1, some l =>
    let (out, done) := scanLeaf pick stop ((t.heap l).keys.zip (t.heap l).rows)
    if done then out else out ++ scanFrom t pick stop n (t.heap l).next

def findEqual (t : BPlusTreeIndex κ) (key : κ) : List RowId :=
  match t.root with
  | none => []
  | some r =>
    scanFrom t (fun x => cmp x key = 0) (fun x => 0 < cmp x key) t.size
      (some (findLeaf cmp t r key))

def inRange (low high : κ) (lowIncl highIncl : Bool) (k : κ) : Bool :=
  (if lowIncl then 0 ≤ cmp k low else 0 < cmp k low) &&
    (if highIncl then cmp k high ≤ 0 else cmp k high < 0)

def range (t : BPlusTreeIndex κ) (low high : κ) (lowIncl highIncl : Bool) : List RowId :=
  match t.root with
  | none => []
  | some r =>
    scanFrom t (inRange cmp low high lowIncl highIncl) (fun x => 0 < cmp x high) t.size
      (some (findLeaf cmp t r low))

end Search

section Insert
variable (cmp : κ → κ → Int)

def insertLeaf (t : BPlusTreeIndex κ) (leaf : Nat) (key : κ) (row : RowId) :
    BPlusTreeIndex κ :=
  t.modify leaf fun n =>
    let pos := n.keys.findIdx (fun x => 0 ≤ cmp x key)
    { n with keys := n.keys.insertIdx pos key, rows := n.rows.insertIdx pos row }

/-- `insert_sep`; the split of an internal node ends in the same steps. -/
def insertSep (t : BPlusTreeIndex κ) (parent : Nat) (sep : κ) (left right : Nat) :
    BPlusTreeIndex κ :=
  let t := t.modify parent fun n =>
    let idx := n.ch.idxOf left
    { n with keys := n.keys.insertIdx idx sep, ch := n.ch.insertIdx (idx + 1) right }
  t.modify right fun n => { n with parent := some parent }

def growRoot (t : BPlusTreeIndex κ) (sep : κ) (left right : Nat) : BPlusTreeIndex κ :=
  let nr := t.size
  let t := t.alloc { leaf := false, keys := [sep], ch := [left, right] }
  let t := t.modify left fun n => { n with parent := some nr }
  let t := t.modify right fun n => { n with parent := some nr }
  { t with root := some nr }

def splitLeaf (t : BPlusTreeIndex κ) (cur : Nat) : BPlusTreeIndex κ :=
  let n := t.heap cur
  let right := t.size
  let mid := n.keys.length / 2
  let t := t.alloc
    { leaf := true, keys := n.keys.drop mid, rows := n.rows.drop mid, next := n.next }
  t.modify cur fun n =>
    { n with keys := n.keys.take mid, rows := n.rows.take mid, next := some right }

def setParents (t : BPlusTreeIndex κ) (cs : List Nat) (p : Nat) : BPlusTreeIndex κ :=
  cs.foldl (fun t c => t.modify c fun n => { n with parent := some p }) t

def splitInternal (t : BPlusTreeIndex κ) (cur : Nat) : BPlusTreeIndex κ :=
  let n := t.heap cur
  let right := t.size
  let mid := n.keys.length / 2
  let t := t.alloc { leaf := false, keys := n.keys.drop (mid + 1), ch := n.ch.drop (mid + 1) }
  let t := t.modify cur fun n => { n with keys := n.keys.take mid, ch := n.ch.take (mid + 1) }
  let t := t.setParents (n.ch.take (mid + 1)) cur
  t.setParents (n.ch.drop (mid + 1)) right

/-- One turn of the split loop: the tree and `cur` after it. The key handed up is the middle one,
which a leaf also keeps as the first key of its right half. -/
def splitStep (s : BPlusTreeIndex κ × Nat) : Option (BPlusTreeIndex κ × Nat) :=
  let (t, cur) := s
  let n := t.heap cur
  if t.order < n.keys.length then
    match n.keys[n.keys.length / 2]? with
    | none => none
    | some sep =>
      let right := t.size
      let t := if n.leaf then t.splitLeaf cur else t.splitInternal cur
      match n.parent with
      | none => some (t.growRoot sep cur right, t.size)
      | some p => some (t.insertSep p sep cur right, p)
  else none

def insertValue (t : BPlusTreeIndex κ) (key : κ) (row : RowId) : BPlusTreeIndex κ :=
  match t.root with
  | none => { t.alloc { leaf := true, keys := [key], rows := [row] } with root := some t.size }
  | some r =>
    let leaf := findLeaf cmp t r key
    (iterate splitStep (t.size + 1) (t.insertLeaf cmp leaf key row, leaf)).1

/-- The C++ `insert` answers `true` whatever it is given. -/
def insert (t : BPlusTreeIndex κ) (key : κ) (row : RowId) : BPlusTreeIndex κ :=
  t.insertValue cmp key row

end Insert

section Erase
variable (cmp : κ → κ → Int)

def eraseLeaf (t : BPlusTreeIndex κ) (leaf : Nat) (key : κ) (row : RowId) :
    Option (BPlusTreeIndex κ) :=
  let n := t.heap leaf
  match (n.keys.zip n.rows).findIdx? (fun e => cmp e.1 key = 0 ∧ e.2 = row) with
  | none => none
  | some i =>
    some (t.modify leaf fun n => { n with keys := n.keys.eraseIdx i, rows := n.rows.eraseIdx i })

def eraseFrom (t : BPlusTreeIndex κ) (key : κ) (row : RowId) :
    Nat → Option Nat → Option (BPlusTreeIndex κ)
  | 0, _ => none
  | _, none => none
  | n + 1, some l =>
    match t.eraseLeaf cmp l key row with
    | some t' => some t'
    | none => eraseFrom t key row n (t.heap l).next

def erase (t : BPlusTreeIndex κ) (key : κ) (row : RowId) : BPlusTreeIndex κ × Bool :=
  match t.root with
  | none => (t, false)
  | some r =>
    match t.eraseFrom cmp key row t.size (some (findLeaf cmp t r key)) with
    | some t' => (t', true)
    | none => (t, false)

end Erase

end BPlusTreeIndex
end Dbms.Core
