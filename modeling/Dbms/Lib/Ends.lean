import Dbms.Lib.Reader

/-! What a program makes of a stream whose tokens all have a property. -/

namespace Dbms.Lib.Reader
variable {τ ε ρ κ σ α β : Type} {T : τ → Prop} {E : ε → Prop} {P : α → Prop} {Q : β → Prop}

/-- Over tokens with `T` the program returns values with `P` and fails with errors of `E`. -/
def Ends (T : τ → Prop) (E : ε → Prop) (P : α → Prop) : Reader τ ε ρ κ α → Prop
  | done a => P a
  | fail e => E e
  | look k => ∀ t, T t → (k t).Ends T E P
  | next p => p.Ends T E P
  | ask _ k => ∀ a, (k a).Ends T E P

theorem Ends.bind {p : Reader τ ε ρ κ α} {f : α → Reader τ ε ρ κ β} (hp : p.Ends T E P)
    (hf : ∀ a, P a → (f a).Ends T E Q) : (p >>= f).Ends T E Q := by
  change (p.bind f).Ends T E Q
  induction p with
  | done a => exact hf a hp
  | fail e => exact hp
  | look k ih => exact fun t ht => ih t (hp t ht)
  | next p ih => exact ih hp
  | ask q k ih => exact fun a => ih a (hp a)

theorem ends_ite {c : Prop} [Decidable c] {p q : Reader τ ε ρ κ α} (hp : c → p.Ends T E P)
    (hq : ¬c → q.Ends T E P) : (if c then p else q).Ends T E P := by
  split
  · exact hp ‹c›
  · exact hq ‹¬c›

theorem Ends.run {I : σ → Prop} {scan : σ → τ × σ} {answer : ρ → Except ε κ} {s : σ}
    {p : Reader τ ε ρ κ α} (hp : p.Ends T E P) (hscan : ∀ s, I s → T (scan s).1 ∧ I (scan s).2)
    (hans : ∀ q e, answer q = .error e → E e) (hs : I s) :
    (∀ a s', p.run scan answer s = .ok (a, s') → P a ∧ I s') ∧
      ∀ e, p.run scan answer s = .error e → E e := by
  induction p generalizing s with
  | done a =>
    refine ⟨fun a' s' h => ?_, fun e' h => by cases h⟩
    cases h
    exact ⟨hp, hs⟩
  | fail e =>
    refine ⟨fun a' s' h => (by cases h), fun e' h => ?_⟩
    cases h
    exact hp
  | look k ih => exact ih _ (hp _ (hscan s hs).1) hs
  | next p ih => exact ih hp (hscan s hs).2
  | ask q k ih =>
    simp only [Reader.run]
    cases hq : answer q with
    | ok a => exact ih a (hp a) hs
    | error e =>
      refine ⟨fun a' s' h => (by cases h), fun e' h => ?_⟩
      cases h
      exact hans q e hq

end Dbms.Lib.Reader
