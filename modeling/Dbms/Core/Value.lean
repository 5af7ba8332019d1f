import Dbms.Lib.Comparator
import Mathlib.Data.Char
import Mathlib.Data.Finmap
import Mathlib.Data.List.Lex
import Mathlib.Data.Prod.Lex

/-! Interned strings, cells and their order. A byte string is a list of characters, one for each
byte. -/

open Dbms.Lib

namespace Dbms.Core

abbrev Text := List Char

/-- The pool knows each string it was given under the index it stands at, cut to 32 bits. -/
structure StringPool where
  strings : List Text
  index : Finmap fun _ : Text => Nat
  marker : strings[0]? = some []
  indexed : ∀ s id, index.lookup s = some id ↔
    ∃ i, 0 < i ∧ strings[i]? = some s ∧ id = i % 2 ^ 32

namespace StringPool
variable {pool : StringPool} {s s' : Text} {id : Nat}

/-- Id 0 is taken by the empty marker. -/
def new : StringPool where
  strings := [[]]
  index := ∅
  marker := rfl
  indexed s id := by
    simp only [Finmap.lookup_empty, reduceCtorEq, false_iff, not_exists, not_and]
    intro i hi h
    rw [List.getElem?_eq_none (by simp only [List.length_singleton]; omega)] at h
    cases h

def size (pool : StringPool) : Nat := pool.strings.length

def resolve (pool : StringPool) (id : Nat) : Text := pool.strings.getD id []

theorem indexed_push (h : pool.index.lookup s = none) (s' : Text) (id : Nat) :
    (pool.index.insert s (pool.size % 2 ^ 32)).lookup s' = some id ↔
      ∃ i, 0 < i ∧ (pool.strings ++ [s])[i]? = some s' ∧ id = i % 2 ^ 32 := by
  have hpos : 0 < pool.size := by
    obtain ⟨hlt, -⟩ := List.getElem?_eq_some_iff.mp pool.marker
    exact hlt
  have hold : ∀ i, 0 < i → pool.strings[i]? ≠ some s := fun i hi hs => by
    rw [(pool.indexed s (i % 2 ^ 32)).mpr ⟨i, hi, hs, rfl⟩] at h
    cases h
  by_cases hs : s' = s
  · subst hs
    rw [Finmap.lookup_insert]
    constructor
    · intro hid
      exact ⟨pool.size, hpos, List.getElem?_concat_length, (Option.some.inj hid).symm⟩
    · rintro ⟨i, hi, hget, rfl⟩
      rcases Nat.lt_trichotomy i pool.size with hlt | rfl | hgt
      · rw [List.getElem?_append_left hlt] at hget
        exact absurd hget (hold i hi)
      · rfl
      · rw [List.getElem?_eq_none (by simpa [size, Nat.succ_le_iff] using hgt)] at hget
        cases hget
  · rw [Finmap.lookup_insert_of_ne _ hs, pool.indexed]
    refine exists_congr fun i => and_congr_right fun _ => and_congr_left fun _ => ?_
    rcases Nat.lt_or_ge i pool.size with hlt | hge
    · rw [List.getElem?_append_left hlt]
    · rw [List.getElem?_append_right hge, List.getElem?_eq_none hge]
      cases hi : i - pool.strings.length with
      | zero => simpa using Ne.symm hs
      | succ n => simp

def push (pool : StringPool) (s : Text) (h : pool.index.lookup s = none) : StringPool where
  strings := pool.strings ++ [s]
  index := pool.index.insert s (pool.size % 2 ^ 32)
  marker := by rw [List.getElem?_append_left (List.getElem?_eq_some_iff.mp pool.marker).1, pool.marker]
  indexed := indexed_push h

/-- A string seen before keeps its id; a new one gets the next, of type `uint32_t`. -/
def intern (pool : StringPool) (s : Text) : Nat × StringPool :=
  match h : pool.index.lookup s with
  | some id => (id, pool)
  | none => (pool.size % 2 ^ 32, pool.push s h)

/-- A pool reached by interning keeps every string where it was. -/
def Extends (pool pool' : StringPool) : Prop := pool.strings <+: pool'.strings

theorem Extends.refl (pool : StringPool) : pool.Extends pool := List.prefix_rfl

theorem Extends.trans {pool₁ pool₂ pool₃ : StringPool} (h : pool₁.Extends pool₂)
    (h' : pool₂.Extends pool₃) : pool₁.Extends pool₃ := List.IsPrefix.trans h h'

theorem Extends.size_le {pool' : StringPool} (h : pool.Extends pool') : pool.size ≤ pool'.size :=
  h.length_le

theorem Extends.resolve {pool' : StringPool} (h : pool.Extends pool') (hid : id < pool.size) :
    pool'.resolve id = pool.resolve id := by
  obtain ⟨ss, hss⟩ := h
  simp only [StringPool.resolve, ← hss, List.getD_eq_getElem?_getD]
  rw [List.getElem?_append_left hid]

theorem intern_extends (pool : StringPool) (s : Text) : pool.Extends (pool.intern s).2 := by
  unfold intern
  split
  · exact List.prefix_rfl
  · exact List.prefix_append _ _

theorem lookup_lt (h : pool.index.lookup s = some id) : id < pool.size := by
  obtain ⟨i, -, hget, rfl⟩ := (pool.indexed s id).mp h
  exact Nat.lt_of_le_of_lt (Nat.mod_le _ _) (List.getElem?_eq_some_iff.mp hget).1

theorem intern_lt (pool : StringPool) (s : Text) : (pool.intern s).1 < (pool.intern s).2.size := by
  unfold intern
  split
  · rename_i id h
    exact lookup_lt h
  · refine Nat.lt_of_le_of_lt (Nat.mod_le _ _) ?_
    simp [push, size]

theorem Extends.lookup {pool' : StringPool} (h : pool.Extends pool')
    (hs : pool.index.lookup s = some id) : pool'.index.lookup s = some id := by
  obtain ⟨i, hi, hget, rfl⟩ := (pool.indexed s id).mp hs
  obtain ⟨ss, hss⟩ := h
  apply (pool'.indexed s _).mpr
  refine ⟨i, hi, ?_, rfl⟩
  rw [← hss, List.getElem?_append_left (List.getElem?_eq_some_iff.mp hget).1, hget]

theorem intern_of_lookup (h : pool.index.lookup s = some id) : pool.intern s = (id, pool) := by
  unfold intern
  split
  · rename_i id' h'
    cases h'.symm.trans h
    rfl
  · rename_i h'
    cases h'.symm.trans h

theorem intern_lookup (pool : StringPool) (s : Text) :
    (pool.intern s).2.index.lookup s = some (pool.intern s).1 := by
  unfold intern
  split
  · assumption
  · exact Finmap.lookup_insert _

theorem intern_again {pool' : StringPool} (h : (pool.intern s).2.Extends pool') :
    pool'.intern s = ((pool.intern s).1, pool') :=
  intern_of_lookup (h.lookup (pool.intern_lookup s))

/-- Ids of a pool with at most `2 ^ 32` strings stand for their strings. -/
theorem resolve_of_lookup (hsize : pool.size ≤ 2 ^ 32) (h : pool.index.lookup s = some id) :
    pool.resolve id = s := by
  obtain ⟨i, -, hget, rfl⟩ := (pool.indexed s id).mp h
  have hi : i < pool.size := (List.getElem?_eq_some_iff.mp hget).1
  rw [Nat.mod_eq_of_lt (Nat.lt_of_lt_of_le hi hsize)]
  simp [resolve, List.getD_eq_getElem?_getD, hget]

def internAll : StringPool → List Text → StringPool := List.foldl fun pool s => (pool.intern s).2

theorem internAll_append (pool : StringPool) (ss ss' : List Text) :
    pool.internAll (ss ++ ss') = (pool.internAll ss).internAll ss' := List.foldl_append

theorem internAll_extends (pool : StringPool) (ss : List Text) :
    pool.Extends (pool.internAll ss) := by
  induction ss generalizing pool with
  | nil => exact .refl pool
  | cons s ss ih => exact (pool.intern_extends s).trans (ih _)

theorem internAll_known {ss : List Text} (h : ∀ s ∈ ss, (pool.index.lookup s).isSome) :
    pool.internAll ss = pool := by
  induction ss with
  | nil => rfl
  | cons s ss ih =>
    obtain ⟨id, hid⟩ := Option.isSome_iff_exists.mp (h s (List.mem_cons_self ..))
    show (pool.intern s).2.internAll ss = pool
    rw [intern_of_lookup hid]
    exact ih fun s hs => h s (List.mem_cons_of_mem _ hs)

theorem internAll_lookup {ss : List Text} (hs : s ∈ ss) :
    ((pool.internAll ss).index.lookup s).isSome := by
  induction ss generalizing pool with
  | nil => cases hs
  | cons s' ss ih =>
    rcases List.mem_cons.mp hs with rfl | hs
    · have h := ((pool.intern s).2.internAll_extends ss).lookup (pool.intern_lookup s)
      exact Option.isSome_iff_exists.mpr ⟨_, h⟩
    · exact ih hs

theorem internAll_again {ss ss' : List Text} (h : ss <+: ss') :
    (pool.internAll ss).internAll ss' = pool.internAll ss' := by
  obtain ⟨rest, rfl⟩ := h
  rw [internAll_append, internAll_append, internAll_known fun s hs => internAll_lookup hs]

theorem internAll_size (pool : StringPool) (ss : List Text) :
    (pool.internAll ss).size ≤
      pool.size + ss.countP fun s => (pool.index.lookup s).isNone := by
  induction ss generalizing pool with
  | nil => exact le_rfl
  | cons s ss ih =>
    have hrest := ih (pool.intern s).2
    show ((pool.intern s).2.internAll ss).size ≤ _
    have hfewer : ss.countP (fun s' => ((pool.intern s).2.index.lookup s').isNone) ≤
        ss.countP fun s' => (pool.index.lookup s').isNone := by
      apply List.countP_mono_left
      intro s' _ hnone
      cases hid : pool.index.lookup s' with
      | none => rfl
      | some id =>
        rw [(pool.intern_extends s).lookup hid] at hnone
        cases hnone
    cases hid : pool.index.lookup s with
    | some id =>
      rw [intern_of_lookup hid] at hrest ⊢
      rw [List.countP_cons_of_neg (by simp [hid])]
      exact hrest
    | none =>
      have hsize : (pool.intern s).2.size = pool.size + 1 := by
        unfold intern
        split
        · rename_i id h
          rw [hid] at h
          cases h
        · simp [push, size]
      rw [List.countP_cons_of_pos (by simp [hid])]
      omega

theorem internAll_size_again {ss : List Text} (hs : s ∈ ss) :
    ((pool.intern s).2.internAll ss).size ≤ pool.size + ss.length := by
  have hrest := (pool.intern s).2.internAll_size ss
  cases hid : pool.index.lookup s with
  | some id =>
    rw [intern_of_lookup hid] at hrest ⊢
    exact hrest.trans (Nat.add_le_add_left List.countP_le_length _)
  | none =>
    have hone := pool.internAll_size [s]
    have hsingle : pool.internAll [s] = (pool.intern s).2 := rfl
    have hlt : ss.countP (fun s' => ((pool.intern s).2.index.lookup s').isNone) < ss.length := by
      apply lt_of_le_of_ne List.countP_le_length
      intro heq
      have hnone := List.countP_eq_length.mp heq s hs
      rw [intern_lookup] at hnone
      cases hnone
    rw [hsingle, List.countP_cons_of_pos (by simp [hid]), List.countP_nil] at hone
    omega

end StringPool

inductive Value where
  | null
  | int (v : Int)
  | string (id : Nat)
  deriving DecidableEq

namespace Value

def isNull : Value → Bool
  | null => true
  | _ => false

def kind : Value → Nat
  | null => 0
  | int _ => 1
  | string _ => 2

def Interned (pool : StringPool) : Value → Prop
  | string id => id < pool.size
  | _ => True

instance (pool : StringPool) : (v : Value) → Decidable (v.Interned pool)
  | null | int _ => inferInstanceAs (Decidable True)
  | string id => inferInstanceAs (Decidable (id < pool.size))

theorem Interned.extends {pool pool' : StringPool} {v : Value} (h : v.Interned pool)
    (hp : pool.Extends pool') : v.Interned pool' := by
  cases v with
  | string id => exact Nat.lt_of_lt_of_le h hp.size_le
  | null | int _ => trivial

end Value

def cmpBy {α : Type*} [LT α] [DecidableLT α] (a b : α) : Int :=
  if a < b then -1 else if b < a then 1 else 0

def valueCmp (pool : StringPool) (a b : Value) : Int :=
  if a.kind ≠ b.kind then (if a.kind < b.kind then -1 else 1)
  else match a, b with
    | .int x, .int y => cmpBy x y
    | .string x, .string y => cmpBy (pool.resolve x) (pool.resolve y)
    | _, _ => 0

def valueEq (a b : Value) : Bool :=
  match a, b with
  | .null, .null => true
  | .int x, .int y => x = y
  | .string x, .string y => x = y
  | _, _ => false

section Order
variable {pool : StringPool}

theorem cmpBy_totalPreorder {α : Type*} [LinearOrder α] : TotalPreorder (@cmpBy α _ _) where
  swap a b := by
    unfold cmpBy
    rcases lt_trichotomy a b with h | rfl | h
    · simp [h, h.not_gt]
    · simp
    · simp [h, h.not_gt]
  trans a b c := by
    have hle : ∀ x y : α, cmpBy x y ≤ 0 ↔ x ≤ y := fun x y => by
      unfold cmpBy
      rcases lt_trichotomy x y with h | rfl | h
      · simp [h, h.le]
      · simp
      · simp [h, h.not_gt]
    rw [hle, hle, hle]
    exact le_trans

theorem cmpBy_eq_zero {α : Type*} [LinearOrder α] {a b : α} : cmpBy a b = 0 ↔ a = b := by
  unfold cmpBy
  rcases lt_trichotomy a b with h | rfl | h
  · simp [h, h.ne]
  · simp
  · simp [h, h.not_gt, h.ne']

theorem valueCmp_int_eq_zero {a b : Int} : valueCmp pool (.int a) (.int b) = 0 ↔ a = b :=
  cmpBy_eq_zero

theorem valueCmp_eq_zero_int {v : Value} {n : Int} : valueCmp pool v (.int n) = 0 ↔ v = .int n := by
  cases v with
  | int x => rw [valueCmp_int_eq_zero, Value.int.injEq]
  | null | string _ => simp [valueCmp, Value.kind]

def Value.rank (pool : StringPool) : Value → Nat ×ₗ Int ×ₗ Text
  | .null => toLex (0, toLex (0, []))
  | .int v => toLex (1, toLex (v, []))
  | .string id => toLex (2, toLex (0, pool.resolve id))

theorem valueCmp_eq_cmpBy (pool : StringPool) (a b : Value) :
    valueCmp pool a b = cmpBy (a.rank pool) (b.rank pool) := by
  cases a <;> cases b <;>
    simp [valueCmp, Value.kind, Value.rank, cmpBy, Prod.Lex.toLex_lt_toLex]

theorem valueCmp_totalPreorder (pool : StringPool) : TotalPreorder (valueCmp pool) where
  swap a b := by
    simp only [valueCmp_eq_cmpBy]
    exact cmpBy_totalPreorder.swap _ _
  trans a b c := by
    simp only [valueCmp_eq_cmpBy]
    exact cmpBy_totalPreorder.trans _ _ _

/-- The order of interned cells does not change as the pool grows. -/
theorem valueCmp_extends {pool' : StringPool} (hp : pool.Extends pool') {a b : Value}
    (ha : a.Interned pool) (hb : b.Interned pool) : valueCmp pool' a b = valueCmp pool a b := by
  cases a <;> cases b <;> try rfl
  simp only [valueCmp, hp.resolve ha, hp.resolve hb]

end Order

end Dbms.Core
