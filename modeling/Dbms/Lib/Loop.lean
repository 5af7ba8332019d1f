import Mathlib.Data.List.Forall2
import Mathlib.Data.List.TakeWhile
import Mathlib.Data.Nat.Init

/-! Bounded runs of a `while` loop and the rule that moves an invariant to its exit. -/

namespace Dbms.Lib
variable {σ : Type*}

/-- At most `n` turns of a loop whose body answers `none` when the loop is left. -/
def iterate (body : σ → Option σ) : Nat → σ → σ
  | 0, s => s
  | n + 1, s =>
    match body s with
    | none => s
    | some s' => iterate body n s'

theorem iterate_of_exit {body : σ → Option σ} {s : σ} (h : body s = none) (n : Nat) :
    iterate body n s = s := by
  cases n with
  | zero => rfl
  | succ n => simp only [iterate, h]

theorem iterate_keeps {body : σ → Option σ} {P : σ → Prop}
    (hturn : ∀ s s', P s → body s = some s' → P s') {s : σ} (hs : P s) (n : Nat) :
    P (iterate body n s) := by
  induction n generalizing s with
  | zero => exact hs
  | succ n ih =>
    unfold iterate
    cases hb : body s with
    | none => exact hs
    | some s' => exact ih (hturn s s' hs hb)

theorem iterate_rule (body : σ → Option σ) (Inv : Nat → σ → Prop)
    (hturn : ∀ n s s', Inv n s → body s = some s' → ∃ m < n, Inv m s')
    {fuel n : Nat} {s : σ} (hs : Inv n s) (hn : n ≤ fuel) :
    ∃ m, Inv m (iterate body fuel s) ∧ body (iterate body fuel s) = none := by
  induction fuel generalizing n s with
  | zero =>
    refine ⟨n, hs, ?_⟩
    cases hb : body s with
    | none => exact hb
    | some s' =>
      obtain ⟨m, hm, -⟩ := hturn n s s' hs hb
      omega
  | succ fuel ih =>
    cases hb : body s with
    | none =>
      rw [iterate_of_exit hb]
      exact ⟨n, hs, hb⟩
    | some s' =>
      obtain ⟨m, hm, hs'⟩ := hturn n s s' hs hb
      simpa only [iterate, hb] using ih hs' (by omega)

/-! Loops over a list that stop at the first error. -/

section UntilError
variable {α ε : Type*} {body : α → σ → Option ε × σ}

/-- The error that ended the loop, if one did, and the state it left. -/
def untilError (body : α → σ → Option ε × σ) : List α → σ → Option ε × σ
  | [], s => (none, s)
  | x :: xs, s =>
    match body x s with
    | (some e, s) => (some e, s)
    | (none, s) => untilError body xs s

theorem untilError_cons_none {x : α} {xs : List α} {s : σ} (h : (body x s).1 = none) :
    untilError body (x :: xs) s = untilError body xs (body x s).2 := by
  rw [untilError]
  split
  · rename_i heq
    rw [heq] at h
    cases h
  · rename_i heq
    rw [heq]

theorem untilError_cons_some {x : α} {xs : List α} {s : σ} {e : ε} (h : (body x s).1 = some e) :
    untilError body (x :: xs) s = body x s := by
  rw [untilError]
  split
  · rename_i heq
    exact heq.symm
  · rename_i heq
    rw [heq] at h
    cases h

theorem untilError_error {I : σ → Prop} {P : ε → Prop} {xs : List α} {s : σ} {e : ε}
    (hkeep : ∀ x ∈ xs, ∀ s, I s → I (body x s).2)
    (hstop : ∀ x ∈ xs, ∀ s e, I s → (body x s).1 = some e → P e) (hs : I s)
    (h : (untilError body xs s).1 = some e) : P e := by
  induction xs generalizing s with
  | nil => cases h
  | cons x xs ih =>
    obtain ⟨hx, hxs⟩ := List.forall_mem_cons.mp hkeep
    obtain ⟨hx', hxs'⟩ := List.forall_mem_cons.mp hstop
    cases hend : (body x s).1 with
    | some e' =>
      rw [untilError_cons_some hend] at h
      exact hx' s e hs h
    | none =>
      rw [untilError_cons_none hend] at h
      exact ih hxs hxs' (hx s hs) h

theorem untilError_rel {R : σ → σ → Prop} (hrefl : ∀ s, R s s)
    (htrans : ∀ {s s' s''}, R s s' → R s' s'' → R s s'') (xs : List α)
    (hstep : ∀ x ∈ xs, ∀ s, R s (body x s).2) (s : σ) : R s (untilError body xs s).2 := by
  induction xs generalizing s with
  | nil => exact hrefl s
  | cons x xs ih =>
    obtain ⟨hx, hxs⟩ := List.forall_mem_cons.mp hstep
    cases hend : (body x s).1 with
    | some e =>
      rw [untilError_cons_some hend]
      exact hx s
    | none =>
      rw [untilError_cons_none hend]
      exact htrans (hx s) (ih hxs _)

end UntilError

theorem span_append {α : Type} {p : α → Bool} {l r : List α} (h : ∀ a ∈ l, p a = true)
    (hr : ∀ a, r.head? = some a → p a = false) :
    (l ++ r).takeWhile p = l ∧ (l ++ r).dropWhile p = r := by
  rw [List.takeWhile_append_of_pos h, List.dropWhile_append_of_pos h]
  cases r with
  | nil => simp
  | cons a r => simp [hr a rfl]

section MapM
variable {α β ε : Type} {f : α → Except ε β} {l : List α}

theorem mapM_ok {g : α → β} (h : ∀ a ∈ l, f a = .ok (g a)) : l.mapM f = .ok (l.map g) := by
  induction l with
  | nil => rfl
  | cons a l ih =>
    rw [List.mapM_cons, h a (List.mem_cons_self ..), ih fun x hx => h x (List.mem_cons_of_mem _ hx)]
    rfl

theorem mapM_ok_mem {bs : List β} (h : l.mapM f = .ok bs) : ∀ a ∈ l, ∃ b, f a = .ok b := by
  induction l generalizing bs with
  | nil => exact fun a ha => by cases ha
  | cons x l ih =>
    rw [List.mapM_cons] at h
    cases hx : f x with
    | error e =>
      rw [hx] at h
      cases h
    | ok b =>
      rw [hx] at h
      intro a ha
      rcases List.mem_cons.mp ha with rfl | ha
      · exact ⟨b, hx⟩
      · cases hl : l.mapM f with
        | error e =>
          rw [hl] at h
          cases h
        | ok bs => exact ih hl a ha

theorem mapM_error_mem {e : ε} (h : l.mapM f = .error e) : ∃ a ∈ l, f a = .error e := by
  induction l with
  | nil => cases h
  | cons x l ih =>
    rw [List.mapM_cons] at h
    cases hx : f x with
    | error e' =>
      rw [hx] at h
      cases h
      exact ⟨x, List.mem_cons_self .., hx⟩
    | ok b =>
      rw [hx] at h
      cases hl : l.mapM f with
      | error e' =>
        rw [hl] at h
        cases h
        obtain ⟨a, ha, hfa⟩ := ih hl
        exact ⟨a, List.mem_cons_of_mem _ ha, hfa⟩
      | ok bs =>
        rw [hl] at h
        cases h

theorem mapM_error_iff : (∃ e, l.mapM f = .error e) ↔ ∃ a ∈ l, ∃ e, f a = .error e := by
  constructor
  · rintro ⟨e, h⟩
    obtain ⟨a, ha, hfa⟩ := mapM_error_mem h
    exact ⟨a, ha, e, hfa⟩
  · rintro ⟨a, ha, e, hfa⟩
    cases h : l.mapM f with
    | error e' => exact ⟨e', rfl⟩
    | ok bs =>
      obtain ⟨b, hb⟩ := mapM_ok_mem h a ha
      cases hfa.symm.trans hb

theorem mapM_forall₂ {bs : List β} (h : l.mapM f = .ok bs) :
    List.Forall₂ (fun a b => f a = .ok b) l bs := by
  induction l generalizing bs with
  | nil =>
    cases h
    exact .nil
  | cons x l ih =>
    rw [List.mapM_cons] at h
    cases hx : f x with
    | error e =>
      rw [hx] at h
      cases h
    | ok b =>
      rw [hx] at h
      cases hl : l.mapM f with
      | error e =>
        rw [hl] at h
        cases h
      | ok bs' =>
        rw [hl] at h
        cases h
        exact .cons hx (ih hl)

/-- Turns that succeed on the elements with `p` only. -/
theorem mapM_ite {p : α → Prop} [DecidablePred p] (g : α → β) (l : List α) :
    (l.mapM fun a => if p a then some (g a) else none) =
      if ∀ a ∈ l, p a then some (l.map g) else none := by
  induction l with
  | nil => simp
  | cons a l ih =>
    rw [List.mapM_cons, ih]
    by_cases ha : p a
    · by_cases hl : ∀ x ∈ l, p x
      · have hall : ∀ x ∈ a :: l, p x := List.forall_mem_cons.mpr ⟨ha, hl⟩
        rw [if_pos ha, if_pos hl, if_pos hall]
        rfl
      · have hall : ¬∀ x ∈ a :: l, p x := fun h => hl (List.forall_mem_cons.mp h).2
        rw [if_pos ha, if_neg hl, if_neg hall]
        rfl
    · have hall : ¬∀ x ∈ a :: l, p x := fun h => ha (List.forall_mem_cons.mp h).1
      rw [if_neg ha, if_neg hall]
      rfl

end MapM

end Dbms.Lib
