import Dbms.Core.Value

/-! Identities handed out by a string pool, over a series of calls. -/

namespace Dbms.Core

namespace StringPool
variable {pool : StringPool} {s s' : Text} {id id' : Nat} {ss before after : List Text}

def calls : StringPool → List Text → List (Text × Nat)
  | _, [] => []
  | pool, s :: ss => (s, (pool.intern s).1) :: calls (pool.intern s).2 ss

theorem calls_lookup (h : (s, id) ∈ calls pool ss) :
    (pool.internAll ss).index.lookup s = some id := by
  induction ss generalizing pool with
  | nil => cases h
  | cons s' ss ih =>
    rcases List.mem_cons.mp h with h | h
    · obtain ⟨rfl, rfl⟩ := Prod.mk.inj h
      exact ((pool.intern s).2.internAll_extends ss).lookup (pool.intern_lookup s)
    · exact ih h

theorem calls_lookup_later (h : (s, id) ∈ calls pool before) :
    (pool.internAll (before ++ after)).index.lookup s = some id := by
  rw [internAll_append]
  exact ((pool.internAll before).internAll_extends after).lookup (calls_lookup h)

theorem lookup_inj (hsize : pool.size ≤ 2 ^ 32) (h : pool.index.lookup s = some id)
    (h' : pool.index.lookup s' = some id') : id = id' ↔ s = s' := by
  constructor
  · intro hid
    rw [← resolve_of_lookup hsize h, ← resolve_of_lookup hsize h', hid]
  · intro hs
    subst hs
    exact Option.some.inj (h.symm.trans h')

end StringPool

namespace Value
variable {before : List Text} {pool : StringPool}

/-- NULL, an integer, or a string with an id that one of the calls returned. -/
def Returned (before : List Text) : Value → Prop
  | string id => ∃ s, (s, id) ∈ StringPool.calls .new before
  | _ => True

theorem Returned.interned {v : Value} (h : v.Returned before) :
    v.Interned (StringPool.new.internAll before) := by
  cases v with
  | null | int _ => trivial
  | string id =>
    obtain ⟨s, hs⟩ := h
    exact StringPool.lookup_lt (StringPool.calls_lookup hs)

theorem Returned.cmp_eq_zero {a b : Value} (ha : a.Returned before) (hb : b.Returned before)
    (hsize : (StringPool.new.internAll before).size ≤ 2 ^ 32) :
    valueCmp (StringPool.new.internAll before) a b = 0 ↔ valueEq a b = true := by
  rw [valueCmp_eq_cmpBy, cmpBy_eq_zero]
  cases a with
  | null => cases b <;> simp [rank, valueEq]
  | int x => cases b <;> simp [rank, valueEq]
  | string x =>
    cases b with
    | null | int _ => simp [rank, valueEq]
    | string y =>
      obtain ⟨s, hs⟩ := ha
      obtain ⟨s', hs'⟩ := hb
      have hx := StringPool.calls_lookup hs
      have hy := StringPool.calls_lookup hs'
      have hids := StringPool.lookup_inj hsize hx hy
      rw [← StringPool.resolve_of_lookup hsize hx, ← StringPool.resolve_of_lookup hsize hy] at hids
      simp [rank, valueEq, hids]

end Value

/-- Ids are as good as the strings they stand for, and the order of cells built from them is
total and never changes, as long as an id fits into 32 bits. -/
theorem interning_stable (before after : List Text)
    (hsize : (StringPool.new.internAll (before ++ after)).size ≤ 2 ^ 32) :
    (∀ s id s' id', (s, id) ∈ StringPool.calls .new (before ++ after) →
      (s', id') ∈ StringPool.calls .new (before ++ after) → (id = id' ↔ s = s')) ∧
    (∀ s id, (s, id) ∈ StringPool.calls .new before →
      (StringPool.new.internAll (before ++ after)).resolve id = s) ∧
    ∀ a b c : Value, a.Returned before → b.Returned before → c.Returned before →
      let cmp := valueCmp (StringPool.new.internAll before)
      let later := valueCmp (StringPool.new.internAll (before ++ after))
      cmp a a = 0 ∧ (cmp a b).sign = -(cmp b a).sign ∧
      (cmp a b ≤ 0 → cmp b c ≤ 0 → cmp a c ≤ 0) ∧ (cmp a b ≤ 0 ∨ cmp b a ≤ 0) ∧
      (later a b).sign = (cmp a b).sign ∧ (cmp a b = 0 ↔ valueEq a b = true) := by
  refine ⟨?_, ?_, ?_⟩
  · intro s id s' id' h h'
    exact StringPool.lookup_inj hsize (StringPool.calls_lookup h) (StringPool.calls_lookup h')
  · intro s id h
    exact StringPool.resolve_of_lookup hsize (StringPool.calls_lookup_later h)
  · intro a b c ha hb _
    have hext : (StringPool.new.internAll before).Extends
        (StringPool.new.internAll (before ++ after)) := by
      rw [StringPool.internAll_append]
      exact StringPool.internAll_extends _ after
    have horder := valueCmp_totalPreorder (StringPool.new.internAll before)
    refine ⟨horder.refl a, ?_, horder.trans a b c, ?_, ?_, ?_⟩
    · exact horder.sign_swap b a
    · exact horder.total a b
    · rw [valueCmp_extends hext ha.interned hb.interned]
    · exact ha.cmp_eq_zero hb (hext.size_le.trans hsize)

theorem interning_stable_empty :
    (StringPool.new.internAll ([[], ['x']] ++ [['y']])).resolve 1 = [] ∧
      (StringPool.new.internAll ([[], ['x']] ++ [['y']])).resolve 2 = ['x'] := by
  have hsize : (StringPool.new.internAll ([[], ['x']] ++ [['y']])).size ≤ 2 ^ 32 := by
    decide +kernel
  obtain ⟨-, hresolve, -⟩ := interning_stable [[], ['x']] [['y']] hsize
  exact ⟨hresolve [] 1 (by decide +kernel), hresolve ['x'] 2 (by decide +kernel)⟩

end Dbms.Core
