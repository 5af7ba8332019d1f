import Dbms.Lib.Phrase
import Mathlib.Data.List.Forall2

/-! What a phrase becomes where its tokens are changed, and phrases whose tokens correspond. -/

namespace Dbms.Lib

section Carries
variable {τ ε ρ κ σ σ' α α' β β' : Type}

/-- The tokens from `s` to `s'` are solid, and wherever these, changed by `g`, are read from `S'`, the
places are in the relation `P`. -/
def Transfers (S : Source τ ε ρ κ σ) (S' : Source τ ε ρ κ σ') (g : τ → τ) (s s' : σ)
    (P : σ' → σ' → Prop) : Prop :=
  ∃ ts, S.Takes ts s s' ∧ (∀ t ∈ ts, S.solid t) ∧ ∀ u u', S'.Takes (ts.map g) u u' → P u u'

def Carries (S : Source τ ε ρ κ σ) (S' : Source τ ε ρ κ σ') (g : τ → τ) (φ : α → α')
    (D : Phrase σ α) (D' : Phrase σ' α') : Prop :=
  ∀ s a s', D s a s' → Transfers S S' g s s' fun u u' => D' u (φ a) u'

variable {S : Source τ ε ρ κ σ} {S' : Source τ ε ρ κ σ'} {g : τ → τ} {φ : α → α'} {ψ : β → β'}
  {D D₁ : Phrase σ α} {D' D₁' : Phrase σ' α'} {M : α → Phrase σ β} {M' : α' → Phrase σ' β'}

theorem Transfers.refl (s : σ) : Transfers S S' g s s fun u u' => u' = u :=
  ⟨[], .nil, by simp, fun _ _ h => h⟩

theorem Transfers.scan {s : σ} (h : S.solid (S.token s)) :
    Transfers S S' g s (S.scan s).2 fun u u' => S'.token u = g (S.token s) ∧ u' = (S'.scan u).2 :=
  ⟨[S.token s], .cons .nil, by simpa using h, fun _ _ h => ⟨h.1.symm, h.2⟩⟩

theorem Transfers.trans {s s₁ s₂ : σ} {P Q : σ' → σ' → Prop} (h : Transfers S S' g s s₁ P)
    (h' : Transfers S S' g s₁ s₂ Q) :
    Transfers S S' g s s₂ fun u u₂ => ∃ u₁, P u u₁ ∧ Q u₁ u₂ := by
  obtain ⟨ts, hts, hsolid, hP⟩ := h
  obtain ⟨us, hus, hsolid', hQ⟩ := h'
  refine ⟨ts ++ us, hts.append hus, ?_, ?_⟩
  · intro t ht
    exact (List.mem_append.mp ht).elim (hsolid t) (hsolid' t)
  · intro u u₂ hu
    rw [List.map_append] at hu
    obtain ⟨u₁, hts', hus'⟩ := Source.takes_append.mp hu
    exact ⟨u₁, hP u u₁ hts', hQ u₁ u₂ hus'⟩

theorem Transfers.mono {s s' : σ} {P Q : σ' → σ' → Prop} (h : Transfers S S' g s s' P)
    (hPQ : ∀ u u', P u u' → Q u u') : Transfers S S' g s s' Q := by
  obtain ⟨ts, hts, hsolid, hP⟩ := h
  exact ⟨ts, hts, hsolid, fun u u' hu => hPQ u u' (hP u u' hu)⟩

theorem Carries.bind (hD : Carries S S' g φ D D') (hM : ∀ a, Carries S S' g ψ (M a) (M' (φ a))) :
    Carries S S' g ψ (D >>= M) (D' >>= M') := by
  rintro s b s'' ⟨a, s', ha, hb⟩
  apply ((hD s a s' ha).trans (hM a s' b s'' hb)).mono
  rintro u u'' ⟨u', ha', hb'⟩
  exact ⟨φ a, u', ha', hb'⟩

theorem carries_pure {a : α} {a' : α'} (h : φ a = a') : Carries S S' g φ (pure a) (pure a') := by
  rintro s b s' ⟨rfl, rfl⟩
  exact (Transfers.refl s').mono fun u u' hu => ⟨h, hu⟩

theorem carries_none : Carries S S' g φ .none D' := fun _ _ _ h => h.elim

theorem Carries.either (hD : Carries S S' g φ D D') (hD₁ : Carries S S' g φ D₁ D₁') :
    Carries S S' g φ (D.either D₁) (D'.either D₁') := by
  rintro s a s' (h | h)
  · exact (hD s a s' h).mono fun u u' => .inl
  · exact (hD₁ s a s' h).mono fun u u' => .inr

theorem carries_token {F F' : τ → Prop} {v : τ → α} {v' : τ → α'}
    (h : ∀ t, F t → S.solid t ∧ F' (g t) ∧ φ (v t) = v' (g t)) :
    Carries S S' g φ (.token S F v) (.token S' F' v') := by
  rintro s a s' ⟨hF, rfl, rfl⟩
  obtain ⟨hsolid, hF', hv⟩ := h (S.token s) hF
  apply (Transfers.scan hsolid).mono
  rintro u u' ⟨htoken, rfl⟩
  rw [← htoken] at hF' hv
  exact ⟨hF', hv, rfl⟩

theorem Carries.listOf {sep : Phrase σ Unit} {sep' : Phrase σ' Unit}
    (hsep : Carries S S' g id sep sep') (hD : Carries S S' g φ D D') :
    Carries S S' g (List.map φ) (.ListOf sep D) (.ListOf sep' D') := by
  intro s as s' h
  induction h with
  | one ha => exact (hD _ _ _ ha).mono fun u u' => .one
  | more ha hc _ ih =>
    apply ((hD _ _ _ ha).trans ((hsep _ _ _ hc).trans ih)).mono
    rintro u u' ⟨u₁, ha', u₂, hc', has'⟩
    exact .more ha' hc' has'

theorem Carries.fold {step : α → Phrase σ α} {step' : α' → Phrase σ' α'}
    (h : ∀ a, Carries S S' g φ (step a) (step' (φ a))) (a : α) :
    Carries S S' g φ (.Fold step a) (.Fold step' (φ a)) := by
  intro s b s' hfold
  induction hfold with
  | stop =>
    apply (Transfers.refl _).mono
    rintro u u' rfl
    exact .stop
  | more hs _ ih =>
    apply ((h _ _ _ _ hs).trans ih).mono
    rintro u u' ⟨u₁, hs', hmore⟩
    exact .more hs' hmore

end Carries

/-! Corresponding tokens. -/

section Alike
variable {τ ε ρ κ σ α β : Type} (S : Source τ ε ρ κ σ) (E : τ → τ → Prop)

def Matches (s s' u u' : σ) : Prop :=
  ∃ ts us, S.Takes ts s s' ∧ S.Takes us u u' ∧ List.Forall₂ E ts us

def Alike (D : Phrase σ α) : Prop := ∀ a s s' u u', D s a s' → D u a u' → Matches S E s s' u u'

variable {S E}

theorem Matches.refl (s u : σ) : Matches S E s s u u := ⟨[], [], .nil, .nil, .nil⟩

theorem Matches.scan {s u : σ} (h : E (S.token s) (S.token u)) :
    Matches S E s (S.scan s).2 u (S.scan u).2 :=
  ⟨_, _, .cons .nil, .cons .nil, .cons h .nil⟩

theorem Matches.trans {s s₁ s₂ u u₁ u₂ : σ} (h : Matches S E s s₁ u u₁)
    (h' : Matches S E s₁ s₂ u₁ u₂) : Matches S E s s₂ u u₂ := by
  obtain ⟨ts, us, hts, hus, hE⟩ := h
  obtain ⟨ts', us', hts', hus', hE'⟩ := h'
  exact ⟨_, _, hts.append hts', hus.append hus', List.rel_append hE hE'⟩

def Fixed (S : Source τ ε ρ κ σ) (E : τ → τ → Prop) (D : Phrase σ α) (D' : Phrase σ β) : Prop :=
  ∀ s a s' u b u', D s a s' → D' u b u' → Matches S E s s' u u'

theorem Alike.apply {D : Phrase σ α} {a : α} {s s' u u' : σ} (hD : Alike S E D) (h : D s a s')
    (h' : D u a u') : Matches S E s s' u u' := hD a s s' u u' h h'

theorem Fixed.alike {D : Phrase σ α} (hD : Fixed S E D D) : Alike S E D :=
  fun a s s' u u' h h' => hD s a s' u a u' h h'

theorem Fixed.bind {α' β' : Type} {D : Phrase σ α} {D' : Phrase σ β} {M : α → Phrase σ α'}
    {M' : β → Phrase σ β'} (hD : Fixed S E D D') (hM : ∀ a b, Fixed S E (M a) (M' b)) :
    Fixed S E (D >>= M) (D' >>= M') := by
  rintro s a s' u b u' ⟨c, s₁, hc, ha⟩ ⟨d, u₁, hd, hb⟩
  exact (hD _ _ _ _ _ _ hc hd).trans (hM _ _ _ _ _ _ _ _ ha hb)

theorem fixed_pure (a : α) (b : β) : Fixed S E (pure a) (pure b) := by
  rintro s _ s' u _ u' ⟨rfl, rfl⟩ ⟨rfl, rfl⟩
  exact Matches.refl _ _

theorem fixed_token {F F' : τ → Prop} {v : τ → α} {v' : τ → β} (h : ∀ t u, F t → F' u → E t u) :
    Fixed S E (.token S F v) (.token S F' v') := by
  rintro s a s' u b u' ⟨hF, -, rfl⟩ ⟨hF', -, rfl⟩
  exact Matches.scan (h _ _ hF hF')

theorem Alike.listOf {sep : Phrase σ Unit} {D : Phrase σ α} (hsep : Fixed S E sep sep)
    (hD : Alike S E D) : Alike S E (.ListOf sep D) := by
  intro as s s' u u' h
  induction h generalizing u with
  | one ha =>
    intro h'
    cases h' with
    | one ha' => exact hD.apply ha ha'
    | more _ _ hmore => cases hmore
  | more ha hc hmore ih =>
    intro h'
    cases h' with
    | one => cases hmore
    | more ha' hc' hmore' => exact ((hD.apply ha ha').trans (hsep.alike.apply hc hc')).trans (ih _ hmore')

/-- A number of tokens leads to one place only. -/
theorem Source.Takes.place {ts us : List τ} {s s' s'' : σ} (h : S.Takes ts s s')
    (h' : S.Takes us s s'') (hlen : ts.length = us.length) : s' = s'' := by
  induction ts generalizing s us with
  | nil =>
    obtain rfl := List.length_eq_zero_iff.mp hlen.symm
    exact h.trans h'.symm
  | cons t ts ih =>
    cases us with
    | nil => cases hlen
    | cons u us => exact ih h.2 h'.2 (Nat.succ.inj hlen)

theorem Source.Takes.same_length {ts us : List τ} {s s' s'' : σ} (h : S.Takes ts s s')
    (h' : S.Takes us s s'') (hlen : ts.length = us.length) : ts = us := by
  induction ts generalizing s us with
  | nil => exact (List.length_eq_zero_iff.mp hlen.symm).symm
  | cons t ts ih =>
    cases us with
    | nil => cases hlen
    | cons u us => rw [h.1, h'.1, ih h.2 h'.2 (Nat.succ.inj hlen)]

end Alike
end Dbms.Lib
