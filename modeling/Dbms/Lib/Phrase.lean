import Dbms.Lib.Reader

/-! Phrases are the grammars that readers are compared with: relations between a place in a stream, a
value and the place behind the tokens that stand for it. They neither look ahead nor choose. -/

namespace Dbms.Lib

/-- A stream to read from: its tokens, the answers, and a size that solid tokens take something
of. -/
structure Source (τ ε ρ κ σ : Type) where
  scan : σ → τ × σ
  answer : ρ → Except ε κ
  size : σ → Nat
  solid : τ → Prop
  size_le : ∀ s, size (scan s).2 ≤ size s
  size_lt : ∀ s, solid (scan s).1 → size (scan s).2 < size s

def Phrase (σ α : Type) : Type := σ → α → σ → Prop

namespace Phrase
variable {σ α β : Type}

instance : Monad (Phrase σ) where
  pure a := fun s b s' => b = a ∧ s' = s
  bind p f := fun s b s'' => ∃ a s', p s a s' ∧ f a s' b s''

theorem pure_iff {a b : α} {s s' : σ} : (pure a : Phrase σ α) s b s' ↔ b = a ∧ s' = s := Iff.rfl

theorem bind_iff {p : Phrase σ α} {f : α → Phrase σ β} {s s'' : σ} {b : β} :
    (p >>= f) s b s'' ↔ ∃ a s', p s a s' ∧ f a s' b s'' := Iff.rfl

theorem bind_assoc {γ : Type} (p : Phrase σ α) (f : α → Phrase σ β) (g : β → Phrase σ γ) :
    p >>= f >>= g = p >>= fun a => f a >>= g := by
  funext s c s'
  apply propext
  constructor
  · rintro ⟨b, s₂, ⟨a, s₁, ha, hb⟩, hc⟩
    exact ⟨a, s₁, ha, b, s₂, hb, hc⟩
  · rintro ⟨a, s₁, ha, b, s₂, hb, hc⟩
    exact ⟨b, s₂, ⟨a, s₁, ha, hb⟩, hc⟩

theorem pure_bind (a : α) (f : α → Phrase σ β) : (pure a >>= f : Phrase σ β) = f a := by
  funext s b s'
  apply propext
  constructor
  · rintro ⟨a', s₁, ⟨rfl, rfl⟩, hb⟩
    exact hb
  · exact fun hb => ⟨a, s, ⟨rfl, rfl⟩, hb⟩

def none : Phrase σ α := fun _ _ _ => False

def token {τ ε ρ κ : Type} (S : Source τ ε ρ κ σ) (F : τ → Prop) (g : τ → α) : Phrase σ α :=
  fun s a s' => F (S.scan s).1 ∧ a = g (S.scan s).1 ∧ s' = (S.scan s).2

def either (p q : Phrase σ α) : Phrase σ α := fun s a s' => p s a s' ∨ q s a s'

theorem either_bind (p q : Phrase σ α) (f : α → Phrase σ β) :
    p.either q >>= f = (p >>= f : Phrase σ β).either (q >>= f) := by
  funext s b s'
  apply propext
  constructor
  · rintro ⟨a, s₁, ha | ha, hb⟩
    · exact .inl ⟨a, s₁, ha, hb⟩
    · exact .inr ⟨a, s₁, ha, hb⟩
  · rintro (⟨a, s₁, ha, hb⟩ | ⟨a, s₁, ha, hb⟩)
    · exact ⟨a, s₁, .inl ha, hb⟩
    · exact ⟨a, s₁, .inr ha, hb⟩

/-- `item (sep item)*`. -/
inductive ListOf (sep : Phrase σ Unit) (item : Phrase σ α) : Phrase σ (List α) where
  | one {s s' : σ} {a : α} : item s a s' → ListOf sep item s [a] s'
  | more {s s₁ s₂ s' : σ} {a : α} {as : List α} : item s a s₁ → sep s₁ () s₂ →
      ListOf sep item s₂ as s' → ListOf sep item s (a :: as) s'

/-- `step*`, each step from the value so far to the next one. -/
inductive Fold (step : α → Phrase σ α) : α → Phrase σ α where
  | stop {s : σ} {a : α} : Fold step a s a s
  | more {s s₁ s' : σ} {a b c : α} : step a s b s₁ → Fold step b s₁ c s' → Fold step a s c s'

theorem Fold.snoc {step : α → Phrase σ α} {s s₁ s' : σ} {a b c : α} (h : Fold step a s b s₁)
    (hc : step b s₁ c s') : Fold step a s c s' := by
  induction h with
  | stop => exact .more hc .stop
  | more hb _ ih => exact .more hb (ih hc)

end Phrase

section
variable {τ ε ρ κ σ α β : Type} (S : Source τ ε ρ κ σ) (E : ε → Prop)

def Source.token (s : σ) : τ := (S.scan s).1

/-- At `s`, `p` reads exactly the phrases of `D` that a token outside `G` follows, and fails only
with errors of `E`. -/
structure ReadsAt (s : σ) (p : Reader τ ε ρ κ α) (D : Phrase σ α) (G : α → τ → Prop) : Prop where
  iff : ∀ a s', p.run S.scan S.answer s = .ok (a, s') ↔ D s a s' ∧ ¬G a (S.token s')
  error : ∀ e, p.run S.scan S.answer s = .error e → E e

def Reads (m : Nat) (p : Reader τ ε ρ κ α) (D : Phrase σ α) (G : α → τ → Prop) : Prop :=
  ∀ s, S.size s < m → ReadsAt S E s p D G

def Shrinks (D : Phrase σ α) : Prop := ∀ s a s', D s a s' → S.size s' ≤ S.size s

def Gives (D : Phrase σ α) (P : α → Prop) : Prop := ∀ s a s', D s a s' → P a

def Starts (D : Phrase σ α) (F : τ → Prop) : Prop := ∀ s a s', D s a s' → F (S.token s)

def noToken {α τ : Type} : α → τ → Prop := fun _ _ => False

variable {S E} {s : σ} {m : Nat} {p : Reader τ ε ρ κ α} {f : α → Reader τ ε ρ κ β}
  {D D' : Phrase σ α} {M : α → Phrase σ β} {G : α → τ → Prop} {H : β → τ → Prop}

theorem Shrinks.bind (hD : Shrinks S D) (hM : ∀ a, Shrinks S (M a)) : Shrinks S (D >>= M) := by
  rintro s b s'' ⟨a, s', ha, hb⟩
  exact Nat.le_trans (hM a s' b s'' hb) (hD s a s' ha)

theorem shrinks_pure (a : α) : Shrinks S (pure a : Phrase σ α) := by
  rintro s b s' ⟨-, rfl⟩
  exact Nat.le_refl _

theorem Shrinks.either (hD : Shrinks S D) (hD' : Shrinks S D') : Shrinks S (D.either D') := by
  rintro s a s' (h | h)
  · exact hD s a s' h
  · exact hD' s a s' h

theorem Shrinks.listOf {sep : Phrase σ Unit} (hsep : Shrinks S sep) (hD : Shrinks S D) :
    Shrinks S (Phrase.ListOf sep D) := by
  intro s as s' h
  induction h with
  | one ha => exact hD _ _ _ ha
  | more ha hc _ ih => exact Nat.le_trans (Nat.le_trans ih (hsep _ _ _ hc)) (hD _ _ _ ha)

theorem Shrinks.fold {step : α → Phrase σ α} {a : α} (hstep : ∀ a, Shrinks S (step a)) :
    Shrinks S (Phrase.Fold step a) := by
  intro s b s' h
  induction h with
  | stop => exact Nat.le_refl _
  | more hs _ ih => exact Nat.le_trans ih (hstep _ _ _ _ hs)

theorem shrinks_token {F : τ → Prop} {g : τ → α} : Shrinks S (Phrase.token S F g) := by
  rintro s a s' ⟨-, -, rfl⟩
  exact S.size_le s

theorem starts_token {F : τ → Prop} {g : τ → α} : Starts S (Phrase.token S F g) F :=
  fun _ _ _ h => h.1

theorem Gives.bind {P : β → Prop} (hM : ∀ a, Gives (M a) P) : Gives (D >>= M) P := by
  rintro s b s'' ⟨a, s', -, hb⟩
  exact hM a s' b s'' hb

theorem gives_pure {P : α → Prop} {a : α} (h : P a) : Gives (pure a : Phrase σ α) P := by
  rintro s b s' ⟨rfl, -⟩
  exact h

theorem Gives.either {P : α → Prop} (hD : Gives D P) (hD' : Gives D' P) :
    Gives (D.either D') P := by
  rintro s a s' (h | h)
  · exact hD s a s' h
  · exact hD' s a s' h

theorem Starts.bind {F : τ → Prop} (hD : Starts S D F) : Starts S (D >>= M) F := by
  rintro s b s'' ⟨a, s', ha, -⟩
  exact hD s a s' ha

theorem Starts.mono {F F' : τ → Prop} (hD : Starts S D F) (h : ∀ t, F t → F' t) :
    Starts S D F' := fun s a s' ha => h _ (hD s a s' ha)

theorem Starts.either {F : τ → Prop} (hD : Starts S D F) (hD' : Starts S D' F) :
    Starts S (D.either D') F := by
  rintro s a s' (h | h)
  · exact hD s a s' h
  · exact hD' s a s' h

theorem Starts.listOf {F : τ → Prop} {sep : Phrase σ Unit} (hD : Starts S D F) :
    Starts S (Phrase.ListOf sep D) F := by
  intro s as s' h
  cases h with
  | one ha => exact hD _ _ _ ha
  | more ha _ _ => exact hD _ _ _ ha

theorem ReadsAt.congr (h : ReadsAt S E s p D G)
    (hD : ∀ a s', ¬G a (S.token s') → (D' s a s' ↔ D s a s')) : ReadsAt S E s p D' G where
  iff a s' := (h.iff a s').trans (and_congr_left fun hstop => (hD a s' hstop).symm)
  error := h.error

theorem ReadsAt.bind (hp : ReadsAt S E s p D G)
    (hf : ∀ a s', D s a s' → ¬G a (S.token s') → ReadsAt S E s' (f a) (M a) H)
    (hstop : ∀ a s' b s'', D s a s' → M a s' b s'' → ¬H b (S.token s'') → ¬G a (S.token s')) :
    ReadsAt S E s (p >>= f) (D >>= M) H where
  iff b s'' := by
    rw [Reader.run_bind]
    constructor
    · intro h
      cases hrun : p.run S.scan S.answer s with
      | error e =>
        rw [hrun] at h
        cases h
      | ok res =>
        obtain ⟨a, s'⟩ := res
        rw [hrun] at h
        obtain ⟨ha, hG⟩ := (hp.iff a s').mp hrun
        obtain ⟨hb, hH⟩ := ((hf a s' ha hG).iff b s'').mp h
        exact ⟨⟨a, s', ha, hb⟩, hH⟩
    · rintro ⟨⟨a, s', ha, hb⟩, hH⟩
      -- Here it is used that what follows both does not carry the first one on.
      have hG := hstop a s' b s'' ha hb hH
      rw [(hp.iff a s').mpr ⟨ha, hG⟩]
      exact ((hf a s' ha hG).iff b s'').mpr ⟨hb, hH⟩
  error e h := by
    rw [Reader.run_bind] at h
    cases hrun : p.run S.scan S.answer s with
    | error e' =>
      rw [hrun] at h
      cases h
      exact hp.error e hrun
    | ok res =>
      obtain ⟨a, s'⟩ := res
      rw [hrun] at h
      obtain ⟨ha, hG⟩ := (hp.iff a s').mp hrun
      exact (hf a s' ha hG).error e h

theorem Reads.bind (hp : Reads S E m p D noToken) (hD : Shrinks S D)
    (hf : ∀ a, Reads S E m (f a) (M a) H) : Reads S E m (p >>= f) (D >>= M) H :=
  fun s hs => (hp s hs).bind (fun a s' ha _ => hf a s' (Nat.lt_of_le_of_lt (hD s a s' ha) hs))
    fun _ _ _ _ _ _ _ => id

theorem Reads.bind_starts {F : τ → Prop} (hp : Reads S E m p D G) (hD : Shrinks S D)
    (hf : ∀ a, Reads S E m (f a) (M a) H) (hM : ∀ a, Starts S (M a) F)
    (hF : ∀ a t, F t → ¬G a t) : Reads S E m (p >>= f) (D >>= M) H :=
  fun s hs => (hp s hs).bind (fun a s' ha _ => hf a s' (Nat.lt_of_le_of_lt (hD s a s' ha) hs))
    fun a s' b s'' _ hb _ => hF a _ (hM a s' b s'' hb)

theorem ReadsAt.congr_goesOn {G' : α → τ → Prop} (h : ReadsAt S E s p D G)
    (hG : ∀ a s', D s a s' → (G' a (S.token s') ↔ G a (S.token s'))) : ReadsAt S E s p D G' where
  iff a s' := (h.iff a s').trans (and_congr_right fun ha => not_congr (hG a s' ha).symm)
  error := h.error

theorem ReadsAt.map {g : α → β} (hp : ReadsAt S E s p D G)
    (hG : ∀ a s', D s a s' → (H (g a) (S.token s') ↔ G a (S.token s'))) :
    ReadsAt S E s (p >>= fun a => pure (g a)) (D >>= fun a => pure (g a)) H where
  iff b s'' := by
    rw [Reader.run_bind]
    constructor
    · intro h
      cases hrun : p.run S.scan S.answer s with
      | error e =>
        rw [hrun] at h
        cases h
      | ok res =>
        obtain ⟨a, s'⟩ := res
        rw [hrun] at h
        cases h
        obtain ⟨ha, hstop⟩ := (hp.iff a s'').mp hrun
        exact ⟨⟨a, s'', ha, rfl, rfl⟩, by rwa [hG a s'' ha]⟩
    · rintro ⟨⟨a, s', ha, rfl, rfl⟩, hstop⟩
      rw [hG a _ ha] at hstop
      rw [(hp.iff a s'').mpr ⟨ha, hstop⟩]
      rfl
  error e h := by
    rw [Reader.run_bind] at h
    cases hrun : p.run S.scan S.answer s with
    | error e' =>
      rw [hrun] at h
      cases h
      exact hp.error e hrun
    | ok res =>
      rw [hrun] at h
      cases h

theorem Reads.map {g : α → β} (hp : Reads S E m p D G) (hG : ∀ a t, H (g a) t ↔ G a t) :
    Reads S E m (p >>= fun a => pure (g a)) (D >>= fun a => pure (g a)) H :=
  fun s hs => (hp s hs).map fun a _ _ => hG a _

theorem Reads.value {g : α → β} (hp : Reads S E m p D noToken) :
    Reads S E m (p >>= fun a => pure (g a)) (D >>= fun a => pure (g a)) noToken :=
  hp.map fun _ _ => Iff.rfl

theorem reads_pure (a : α) : Reads S E m (pure a) (pure a) noToken := by
  refine fun s _ => ⟨fun b s' => ?_, fun e h => by cases h⟩
  show Except.ok (a, s) = .ok (b, s') ↔ (b = a ∧ s' = s) ∧ ¬False
  simp [eq_comm]

theorem reads_fail {e : ε} (h : E e) : Reads S E m (.fail e) (Phrase.none : Phrase σ α) G := by
  intro s _
  constructor
  · intro b s'
    exact ⟨fun h => (by cases h), fun h => h.1.elim⟩
  · intro e' h'
    cases h'
    exact h

/-- One token, if it is as expected. -/
theorem readsAt_token {F : τ → Prop} {g : τ → α}
    (hyes : F (S.token s) → p.run S.scan S.answer s = .ok (g (S.token s), (S.scan s).2))
    (hno : ¬F (S.token s) → ∃ e, E e ∧ p.run S.scan S.answer s = .error e) :
    ReadsAt S E s p (Phrase.token S F g) noToken := by
  by_cases hF : F (S.token s)
  · refine ⟨fun a s' => ?_, fun e h => by cases (hyes hF).symm.trans h⟩
    rw [hyes hF]
    constructor
    · intro h
      cases h
      exact ⟨⟨hF, rfl, rfl⟩, id⟩
    · rintro ⟨⟨-, rfl, rfl⟩, -⟩
      rfl
  · obtain ⟨e, he, hrun⟩ := hno hF
    constructor
    · intro a s'
      rw [hrun]
      exact ⟨fun h => (by cases h), fun h => absurd h.1.1 hF⟩
    · intro e' h'
      rw [hrun] at h'
      cases h'
      exact he

theorem ReadsAt.either {F : τ → Prop} (hD : Starts S D F) (hD' : Starts S D' fun t => ¬F t)
    (hyes : F (S.token s) → ReadsAt S E s p D G) (hno : ¬F (S.token s) → ReadsAt S E s p D' G) :
    ReadsAt S E s p (D.either D') G := by
  by_cases hF : F (S.token s)
  · apply (hyes hF).congr
    exact fun a s' _ => ⟨fun h => h.resolve_right fun h' => hD' s a s' h' hF, .inl⟩
  · apply (hno hF).congr
    exact fun a s' _ => ⟨fun h => h.resolve_left fun h' => hF (hD s a s' h'), .inr⟩

theorem ReadsAt.look {k : τ → Reader τ ε ρ κ α} (h : ReadsAt S E s (k (S.token s)) D G) :
    ReadsAt S E s (.look k) D G := ⟨h.iff, h.error⟩

theorem ReadsAt.of_look {k : τ → Reader τ ε ρ κ α} (h : ReadsAt S E s (.look k) D G) :
    ReadsAt S E s (k (S.token s)) D G := ⟨h.iff, h.error⟩

theorem ReadsAt.next {F : τ → Prop} {g : τ → α} {q : Reader τ ε ρ κ β} (hF : F (S.token s))
    (h : ReadsAt S E (S.scan s).2 q (M (g (S.token s))) H) :
    ReadsAt S E s (.next q) (Phrase.token S F g >>= M) H where
  iff b s' := by
    refine (h.iff b s').trans (and_congr_left fun _ => ?_)
    constructor
    · exact fun hb => ⟨_, _, ⟨hF, rfl, rfl⟩, hb⟩
    · rintro ⟨a, s₁, ⟨-, rfl, rfl⟩, hb⟩
      exact hb
  error := h.error

theorem ReadsAt.ask {q : ρ} {k : κ → Reader τ ε ρ κ α} {P : κ → Phrase σ α}
    (hans : ∀ e, S.answer q = .error e → E e)
    (hk : ∀ v, S.answer q = .ok v → ReadsAt S E s (k v) (P v) G) :
    ReadsAt S E s (.ask q k) (fun s a s' => ∃ v, S.answer q = .ok v ∧ P v s a s') G := by
  cases hv : S.answer q with
  | error e =>
    have hrun : (Reader.ask q k).run S.scan S.answer s = .error e := by
      simp only [Reader.run, hv]
    constructor
    · intro a s'
      rw [hrun]
      refine ⟨fun h => (by cases h), ?_⟩
      rintro ⟨⟨v, h, -⟩, -⟩
      cases h
    · intro e' h
      rw [hrun] at h
      cases h
      exact hans e hv
  | ok v =>
    have hrun : (Reader.ask q k).run S.scan S.answer s = (k v).run S.scan S.answer s := by
      simp only [Reader.run, hv]
    constructor
    · intro a s'
      rw [hrun, (hk v hv).iff]
      refine and_congr_left fun _ => ⟨fun h => ⟨v, rfl, h⟩, ?_⟩
      rintro ⟨v', h, ha⟩
      cases h
      exact ha
    · intro e h
      rw [hrun] at h
      exact (hk v hv).error e h

theorem Reads.branch {F : τ → Prop} [DecidablePred F] {q r : τ → Reader τ ε ρ κ α}
    (hD : Starts S D F) (hD' : Starts S D' fun t => ¬F t)
    (hyes : ∀ s, S.size s < m → F (S.token s) → ReadsAt S E s (q (S.token s)) D G)
    (hno : Reads S E m (.look r) D' G) :
    Reads S E m (.look fun t => if F t then q t else r t) (D.either D') G := by
  intro s hs
  apply ReadsAt.look
  apply ReadsAt.either hD hD'
  · intro hF
    rw [if_pos hF]
    exact hyes s hs hF
  · intro hF
    rw [if_neg hF]
    exact (hno s hs).of_look

theorem Reads.token_or {F : τ → Prop} [DecidablePred F] {g : τ → α}
    {q r : τ → Reader τ ε ρ κ β} {D' : Phrase σ β}
    (hyes : ∀ t, F t → Reads S E m (q t) (M (g t)) H) (hno : Reads S E m (.look r) D' H)
    (hD' : Starts S D' fun t => ¬F t) :
    Reads S E m (.look fun t => if F t then .next (q t) else r t)
      (Phrase.either (Phrase.token S F g >>= M) D') H :=
  Reads.branch (Starts.bind starts_token) hD'
    (fun s hs hF => (hyes _ hF _ (Nat.lt_of_le_of_lt (S.size_le s) hs)).next hF) hno

theorem Reads.token_then {F : τ → Prop} [DecidablePred F] {g : τ → α}
    {q r : τ → Reader τ ε ρ κ β} (hyes : ∀ t, F t → Reads S E m (q t) (M (g t)) H)
    (hno : ∀ t, ∃ e, E e ∧ r t = .fail e) :
    Reads S E m (.look fun t => if F t then .next (q t) else r t)
      (Phrase.token S F g >>= M) H := by
  intro s hs
  apply ReadsAt.look
  by_cases hF : F (S.token s)
  · rw [if_pos hF]
    exact (hyes _ hF _ (Nat.lt_of_le_of_lt (S.size_le s) hs)).next hF
  · rw [if_neg hF]
    obtain ⟨e, he, hr⟩ := hno (S.token s)
    rw [hr]
    apply (reads_fail he s hs).congr
    rintro b s' -
    exact ⟨fun ⟨a, s₁, ha, _⟩ => hF ha.1, False.elim⟩

theorem ReadsAt.optional {F : τ → Prop} [DecidablePred F] {g : τ → α} {q : τ → Reader τ ε ρ κ β}
    {b : β} (hyes : F (S.token s) → ReadsAt S E (S.scan s).2 (q (S.token s)) (M (g (S.token s))) H)
    (hb : H b (S.token s) ↔ F (S.token s)) :
    ReadsAt S E s (.look fun t => if F t then .next (q t) else pure b)
      (Phrase.either (Phrase.token S F g >>= M) (pure b)) H := by
  apply ReadsAt.look
  by_cases hF : F (S.token s)
  · rw [if_pos hF]
    apply ReadsAt.congr ((hyes hF).next hF)
    intro c s' hstop
    refine ⟨fun h => h.resolve_right ?_, .inl⟩
    rintro ⟨rfl, rfl⟩
    exact hstop (hb.mpr hF)
  · rw [if_neg hF]
    refine ⟨fun c s' => ?_, fun e h => by cases h⟩
    show Except.ok (b, s) = .ok (c, s') ↔ _
    constructor
    · intro h
      cases h
      exact ⟨.inr ⟨rfl, rfl⟩, fun h => hF (hb.mp h)⟩
    · rintro ⟨⟨a, s₁, ha, -⟩ | ⟨rfl, rfl⟩, -⟩
      · exact absurd ha.1 hF
      · rfl

theorem Reads.look (hp : Reads S E m p D G) : Reads S E m (.look fun _ => p) D G :=
  fun s hs => ReadsAt.look (hp s hs)

theorem Reads.token_or_lt {F : τ → Prop} [DecidablePred F] {g : τ → α}
    {q r : τ → Reader τ ε ρ κ β} {D' : Phrase σ β} (hF : ∀ t, F t → S.solid t)
    (hyes : ∀ t, F t → Reads S E m (q t) (M (g t)) H) (hno : Reads S E (m + 1) (.look r) D' H)
    (hD' : Starts S D' fun t => ¬F t) :
    Reads S E (m + 1) (.look fun t => if F t then .next (q t) else r t)
      (Phrase.either (Phrase.token S F g >>= M) D') H :=
  Reads.branch (Starts.bind starts_token) hD'
    (fun s hs ht => (hyes _ ht _ (Nat.lt_of_lt_of_le (S.size_lt s (hF _ ht))
      (Nat.le_of_lt_succ hs))).next ht) hno

theorem fold_mono {step step' : α → Phrase σ α} {a b : α} {s' : σ}
    (hstep : ∀ a s b s', S.size s < m → step a s b s' → step' a s b s')
    (hshrinks : ∀ a, Shrinks S (step a)) (hs : S.size s < m) (h : Phrase.Fold step a s b s') :
    Phrase.Fold step' a s b s' := by
  induction h with
  | stop => exact .stop
  | more hb _ ih =>
    exact .more (hstep _ _ _ _ hs hb) (ih (Nat.lt_of_le_of_lt (hshrinks _ _ _ _ hb) hs))

/-- What follows a fold does not carry on its last step, if nothing that starts a step does. -/
theorem fold_stop {F K : τ → Prop} {step : α → Phrase σ α} {a b : α} {s s' : σ}
    (hstart : ∀ a, Starts S (step a) F) (hFK : ∀ t, F t → ¬K t) (h : Phrase.Fold step a s b s')
    (hstop : ¬(F (S.token s') ∨ K (S.token s'))) : ¬K (S.token s) := by
  cases h with
  | stop => exact fun hK => hstop (.inr hK)
  | more hstep _ => exact hFK _ (hstart _ _ _ _ hstep)

theorem reads_fold {F K : τ → Prop} {loop : Nat → α → Reader τ ε ρ κ α} {step : α → Phrase σ α}
    (hstart : ∀ a, Starts S (step a) F)
    (hstop : ∀ n a s, ¬F (S.token s) → (loop (n + 1) a).run S.scan S.answer s = .ok (a, s))
    (hmore : ∀ n a s, n + 1 ≤ m → S.size s < n + 1 → F (S.token s) →
      (∀ b s', S.size s' < n → ¬K (S.token s') →
        ReadsAt S E s' (loop n b) (Phrase.Fold step b) fun _ t => F t ∨ K t) →
      ReadsAt S E s (loop (n + 1) a) (step a >>= Phrase.Fold step) fun _ t => F t ∨ K t)
    {n : Nat} (hn : n ≤ m) (a : α) (s : σ) (hs : S.size s < n) (hK : ¬K (S.token s)) :
    ReadsAt S E s (loop n a) (Phrase.Fold step a) fun _ t => F t ∨ K t := by
  induction n generalizing a s with
  | zero => exact absurd hs (Nat.not_lt_zero _)
  | succ n ih =>
    by_cases hF : F (S.token s)
    · apply (hmore n a s hn hs hF (ih (Nat.le_of_succ_le hn))).congr
      intro b s' hb
      constructor
      · intro h
        cases h with
        | stop => exact absurd (.inl hF) hb
        | more hstep hrest => exact ⟨_, _, hstep, hrest⟩
      · rintro ⟨c, s₁, hstep, hrest⟩
        exact .more hstep hrest
    · have hrun := hstop n a s hF
      refine ⟨fun b s' => ?_, fun e h => by cases hrun.symm.trans h⟩
      rw [hrun]
      constructor
      · intro h
        cases h
        exact ⟨.stop, fun h => h.elim hF hK⟩
      · rintro ⟨h, -⟩
        cases h with
        | stop => rfl
        | more hstep _ => exact absurd (hstart _ _ _ _ hstep) hF

theorem listOf_ne_nil {sep : Phrase σ Unit} {as : List α} {s' : σ}
    (h : Phrase.ListOf sep D s as s') : as ≠ [] := by
  cases h <;> simp

def lastGoesOn (K : α → τ → Prop) (as : List α) (t : τ) : Prop := ∃ a, as.getLast? = some a ∧ K a t

/-- A loop that reads items as long as the next token is one of `F`. -/
theorem reads_listOf {F : τ → Prop} [DecidablePred F] {K : α → τ → Prop}
    {item : Reader τ ε ρ κ α} {loop : Nat → Reader τ ε ρ κ (List α)} (hF : ∀ t, F t → S.solid t)
    (hFK : ∀ a t, F t → ¬K a t)
    (hloop : ∀ n, loop (n + 1) = item >>= fun a =>
      .look fun t => if F t then .next (loop n >>= fun as => pure (a :: as)) else pure [a])
    (hitem : Reads S E m item D K) (hD : Shrinks S D) {n : Nat} (hn : n ≤ m) :
    Reads S E n (loop n) (Phrase.ListOf (Phrase.token S F fun _ => ()) D)
      fun as t => F t ∨ lastGoesOn K as t := by
  induction n with
  | zero => exact fun s hs => absurd hs (Nat.not_lt_zero _)
  | succ n ih =>
    intro s hs
    have hrest : ∀ a s', D s a s' → ¬K a (S.token s') → ReadsAt S E s'
        (.look fun t => if F t then .next (loop n >>= fun as => pure (a :: as)) else pure [a])
        (Phrase.either (Phrase.token S F (fun _ => ()) >>= fun _ =>
          Phrase.ListOf (Phrase.token S F fun _ => ()) D >>= fun as => pure (a :: as))
          (fun s as s' => ¬F (S.token s) ∧ as = [a] ∧ s' = s))
        fun as t => F t ∨ lastGoesOn K as t := by
      intro a s' ha hK
      have hs' : S.size s' < n + 1 := Nat.lt_of_le_of_lt (hD s a s' ha) hs
      apply ReadsAt.look
      apply ReadsAt.either (Starts.bind starts_token) fun s as s' h => h.1
      · intro hsep
        rw [if_pos hsep]
        apply ReadsAt.next hsep
        have hlist := ih (Nat.le_of_succ_le hn) (S.scan s').2
          (Nat.lt_of_lt_of_le (S.size_lt s' (hF _ hsep)) (Nat.le_of_lt_succ hs'))
        apply hlist.map
        -- the last item of the longer list is that of the shorter one
        intro as s₂ has
        simp only [lastGoesOn, List.getLast?_cons, List.getLast?_eq_some_getLast (listOf_ne_nil has),
          Option.getD_some]
      · intro hsep
        -- No separator: the list ends here, unless the token carries the item on.
        rw [if_neg hsep]
        refine ⟨fun as s₂ => ?_, fun e h => by cases h⟩
        show Except.ok ([a], s') = .ok (as, s₂) ↔ _
        constructor
        · intro h
          cases h
          refine ⟨⟨hsep, rfl, rfl⟩, ?_⟩
          rintro (h | ⟨b, hb, h⟩)
          · exact hsep h
          · cases hb
            exact hK h
        · rintro ⟨⟨-, rfl, rfl⟩, -⟩
          rfl
    rw [hloop]
    apply ReadsAt.congr ((hitem s (Nat.lt_of_lt_of_le hs hn)).bind hrest _)
    · intro as s' hstop
      constructor
      · intro h
        cases h with
        | one ha => exact ⟨_, _, ha, .inr ⟨fun hsep => hstop (.inl hsep), rfl, rfl⟩⟩
        | more ha hsep hmore => exact ⟨_, _, ha, .inl ⟨(), _, hsep, _, _, hmore, rfl, rfl⟩⟩
      · rintro ⟨a, s₁, ha, ⟨u, s₂, hsep, as', s₃, hmore, rfl, rfl⟩ | ⟨-, rfl, rfl⟩⟩
        · exact .more ha hsep hmore
        · exact .one ha
    · rintro a s₁ as s' - (⟨u, s₂, hsep, -⟩ | ⟨-, rfl, rfl⟩) hstop
      · exact hFK a _ hsep.1
      · exact fun hK => hstop (.inr ⟨a, rfl, hK⟩)

end

/-! The tokens between two places. -/

namespace Source
variable {τ ε ρ κ σ : Type} (S : Source τ ε ρ κ σ)

def Takes : List τ → σ → σ → Prop
  | [], s, s' => s' = s
  | t :: ts, s, s' => t = S.token s ∧ Takes ts (S.scan s).2 s'

variable {S} {ts us : List τ} {s s' : σ}

theorem Takes.nil : S.Takes [] s s := rfl

theorem Takes.cons (h : S.Takes ts (S.scan s).2 s') : S.Takes (S.token s :: ts) s s' := ⟨rfl, h⟩

theorem Takes.append {s₁ : σ} (h : S.Takes ts s s₁) (h' : S.Takes us s₁ s') :
    S.Takes (ts ++ us) s s' := by
  induction ts generalizing s with
  | nil =>
    cases h
    exact h'
  | cons t ts ih => exact ⟨h.1, ih h.2⟩

theorem takes_append :
    S.Takes (ts ++ us) s s' ↔ ∃ s₁, S.Takes ts s s₁ ∧ S.Takes us s₁ s' := by
  constructor
  · intro h
    induction ts generalizing s with
    | nil => exact ⟨s, rfl, h⟩
    | cons t ts ih =>
      obtain ⟨s₁, hts, hus⟩ := ih h.2
      exact ⟨s₁, ⟨h.1, hts⟩, hus⟩
  · rintro ⟨s₁, hts, hus⟩
    exact hts.append hus

theorem Takes.size_le (h : S.Takes ts s s') : S.size s' ≤ S.size s := by
  induction ts generalizing s with
  | nil => exact Nat.le_of_eq (congrArg S.size h)
  | cons t ts ih => exact Nat.le_trans (ih h.2) (S.size_le s)

theorem Takes.size_lt {t : τ} (h : S.Takes (t :: ts) s s') (ht : S.solid t) :
    S.size s' < S.size s := by
  obtain ⟨rfl, hts⟩ := h
  exact Nat.lt_of_le_of_lt hts.size_le (S.size_lt s ht)

theorem Takes.unique (h : S.Takes ts s s') (h' : S.Takes us s s') (hts : ∀ t ∈ ts, S.solid t)
    (hus : ∀ t ∈ us, S.solid t) : ts = us := by
  induction ts generalizing s us with
  | nil =>
    cases us with
    | nil => rfl
    | cons u us =>
      cases h
      exact absurd (h'.size_lt (hus u (List.mem_cons_self ..))) (Nat.lt_irrefl _)
  | cons t ts ih =>
    cases us with
    | nil =>
      cases h'
      exact absurd (h.size_lt (hts t (List.mem_cons_self ..))) (Nat.lt_irrefl _)
    | cons u us =>
      rw [h.1, h'.1]
      congr 1
      apply ih h.2 h'.2
      · exact fun t ht => hts t (List.mem_cons_of_mem _ ht)
      · exact fun t ht => hus t (List.mem_cons_of_mem _ ht)

end Source
end Dbms.Lib
