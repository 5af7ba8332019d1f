import Mathlib.Data.List.Basic

/-! Machines whose steps may be impossible, their runs, and runs of one machine seen as runs of
another. -/

namespace Dbms.Lib.Machine
variable {α β σ τ : Type*} {step : α → σ → Option σ} {step' : β → τ → Option τ} {es : List α}
  {s s' : σ}

def run (step : α → σ → Option σ) : List α → σ → Option σ
  | [], s => some s
  | e :: es, s => (step e s).bind (run step es)

def labels (step : α → σ → Option σ) (label : α → σ → Option β) : List α → σ → List β
  | [], _ => []
  | e :: es, s => (label e s).toList ++ ((step e s).map (labels step label es)).getD []

theorem run_cons {e : α} : run step (e :: es) s = some s' ↔
    ∃ s₁, step e s = some s₁ ∧ run step es s₁ = some s' := Option.bind_eq_some_iff

theorem run_append {es' : List α} {s'' : σ} : run step (es ++ es') s = some s'' ↔
    ∃ s', run step es s = some s' ∧ run step es' s' = some s'' := by
  induction es generalizing s with
  | nil => simp [run]
  | cons e es ih =>
    simp only [List.cons_append, run_cons, ih]
    constructor
    · rintro ⟨s₁, h₁, s', h, h'⟩
      exact ⟨s', ⟨s₁, h₁, h⟩, h'⟩
    · rintro ⟨s', ⟨s₁, h₁, h⟩, h'⟩
      exact ⟨s₁, h₁, s', h, h'⟩

theorem labels_cons {label : α → σ → Option β} {e : α} {s₁ : σ} (h : step e s = some s₁) :
    labels step label (e :: es) s = (label e s).toList ++ labels step label es s₁ := by
  rw [labels, h]
  rfl

theorem mem_labels {label : α → σ → Option β} {b : β} (h : b ∈ labels step label es s) :
    ∃ e ∈ es, ∃ s', label e s' = some b := by
  induction es generalizing s with
  | nil => cases h
  | cons e es ih =>
    rcases List.mem_append.mp h with h | h
    · exact ⟨e, List.mem_cons_self, s, Option.mem_toList.mp h⟩
    · cases hs : step e s with
      | none =>
        rw [hs] at h
        cases h
      | some s₁ =>
        rw [hs] at h
        obtain ⟨e', he', hlabel⟩ := ih h
        exact ⟨e', List.mem_cons_of_mem _ he', hlabel⟩

/-- What every possible step keeps of the state and of the labels so far holds of a run. -/
theorem run_keeps (label : α → σ → Option β) (I : σ → List β → Prop) (bs : List β)
    (hstep : ∀ e s s₁ bs, I s bs → step e s = some s₁ → I s₁ (bs ++ (label e s).toList))
    (hI : I s bs) (h : run step es s = some s') :
    I s' (bs ++ labels step label es s) := by
  induction es generalizing s bs with
  | nil =>
    cases h
    rwa [labels, List.append_nil]
  | cons e es ih =>
    obtain ⟨s₁, hs₁, hrun⟩ := run_cons.mp h
    rw [labels_cons hs₁, ← List.append_assoc]
    exact ih _ (hstep e s s₁ bs hI hs₁) hrun

theorem run_invariant (I : σ → Prop) (hstep : ∀ e s s₁, I s → step e s = some s₁ → I s₁) (hI : I s)
    (h : run step es s = some s') : I s' :=
  run_keeps (fun _ _ => none) (fun s (_ : List Empty) => I s) []
    (fun e s s₁ _ hI hs₁ => hstep e s s₁ hI hs₁) hI h

theorem labels_once {κ : Type*} (label : α → σ → Option β) (key : β → κ) (marked : σ → κ → Prop)
    (I : σ → Prop) (hstep : ∀ e s s₁, I s → step e s = some s₁ → I s₁ ∧
      (∀ b, label e s = some b → ¬marked s (key b)) ∧
        ∀ k, marked s₁ k ↔ marked s k ∨ ∃ b, label e s = some b ∧ key b = k)
    (hI : I s) (h : run step es s = some s') : ((labels step label es s).map key).Nodup ∧
      (∀ k ∈ (labels step label es s).map key, ¬marked s k) ∧
        ∀ k, marked s' k ↔ marked s k ∨ k ∈ (labels step label es s).map key := by
  induction es generalizing s with
  | nil =>
    cases h
    simp [labels]
  | cons e es ih =>
    obtain ⟨s₁, hs₁, hrun⟩ := run_cons.mp h
    obtain ⟨hI₁, hnew, hmark⟩ := hstep e s s₁ hI hs₁
    obtain ⟨hnodup, hlate, hall⟩ := ih hI₁ hrun
    rw [labels_cons hs₁]
    -- A label of this step is new, and the later ones find its key marked.
    cases hlabel : label e s with
    | none =>
      have hsame : ∀ k, marked s₁ k ↔ marked s k := by
        intro k
        rw [hmark, hlabel]
        simp
      exact ⟨hnodup, fun k hk => mt (hsame k).mpr (hlate k hk), fun k => (hall k).trans
        (or_congr_left (hsame k))⟩
    | some b =>
      have hmark' : ∀ k, marked s₁ k ↔ marked s k ∨ k = key b := by
        intro k
        rw [hmark, hlabel]
        simp [eq_comm]
      refine ⟨List.nodup_cons.mpr ⟨fun hk => ?_, hnodup⟩, List.forall_mem_cons.mpr ⟨hnew b hlabel,
        fun k hk => ?_⟩, fun k => ?_⟩
      · exact hlate _ hk ((hmark' _).mpr (.inr rfl))
      · exact mt (fun hs => (hmark' k).mpr (.inl hs)) (hlate k hk)
      · rw [hall, hmark', or_assoc]
        exact or_congr_right List.mem_cons.symm

/-- In the states of `I`, which the steps keep, a step of one machine is that of its label in the
other, or changes nothing there. -/
def Simulates (I : σ → Prop) (step : α → σ → Option σ) (step' : β → τ → Option τ) (f : σ → τ)
    (label : α → σ → Option β) : Prop :=
  ∀ e s s', I s → step e s = some s' → I s' ∧ run step' (label e s).toList (f s) = some (f s')

theorem Simulates.run {I : σ → Prop} {f : σ → τ} {label : α → σ → Option β}
    (hsim : Simulates I step step' f label) (hI : I s) (h : run step es s = some s') :
    run step' (labels step label es s) (f s) = some (f s') := by
  induction es generalizing s with
  | nil =>
    cases h
    rfl
  | cons e es ih =>
    obtain ⟨s₁, hs₁, hrun⟩ := run_cons.mp h
    obtain ⟨hI₁, hlabel⟩ := hsim e s s₁ hI hs₁
    rw [labels_cons hs₁, run_append]
    exact ⟨f s₁, hlabel, ih hI₁ hrun⟩

end Dbms.Lib.Machine
