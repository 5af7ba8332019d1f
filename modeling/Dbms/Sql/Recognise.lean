import Dbms.Sql.Grammar

/-! The parser reads exactly the phrases of the grammar that the next token does not carry on. -/

open Dbms.Core Dbms.Lib

namespace Dbms.Sql

structure Expected {σ : Type} (S : TokenSource σ) (E : ParseErr → Prop) : Prop where
  parse : ∀ message, E (.parse message)
  answer : ∀ q e, S.answer q = .error e → E e

namespace Grammar
open Dbms.Sql.Parser hiding cur

section
variable {σ α β : Type} {S : TokenSource σ} {E : ParseErr → Prop} {m n : Nat}

/-! Single tokens. -/

theorem isKw_kind {t : Token} {w : String} (h : isKw t w = true) : t.kind = .kw := by
  simp only [isKw, Bool.and_eq_true, decide_eq_true_eq] at h
  exact h.1

theorem isKw_unique {t : Token} {v w : String} (hv : isKw t v = true) (hw : isKw t w = true) :
    v = w := by
  simp only [isKw, Bool.and_eq_true, decide_eq_true_eq] at hv hw
  exact String.toList_injective (hv.2.symm.trans hw.2)

theorem not_isKw {t : Token} {v w : String} (hw : isKw t w = true) (hne : v ≠ w) :
    ¬isKw t v = true := fun hv => hne (isKw_unique hv hw)

theorem not_isKw_of_kind {t : Token} {v : String} (h : t.kind ≠ .kw) : ¬isKw t v = true :=
  fun hv => h (isKw_kind hv)

def attrKw (t : Token) : Prop :=
  isKw t "NOT" = true ∨ isKw t "INDEXED" = true ∨ isKw t "DEFAULT" = true

instance : DecidablePred attrKw := fun t => by unfold attrKw; infer_instance

theorem starts_columnAttr (c : ColumnDef) : Starts S.toSource (columnAttr S c) attrKw := by
  refine ((Starts.bind starts_token).mono fun t ht => .inl ht).either (Starts.either ?_ ?_)
  · exact (Starts.bind starts_token).mono fun t ht => .inr (.inl ht)
  · exact (Starts.bind starts_token).mono fun t ht => .inr (.inr ht)

theorem solid_of_isKw {t : Token} {w : String} (h : isKw t w = true) : S.solid t := by
  apply S.solid_of
  rw [isKw_kind h]
  decide

theorem starts_literal : Starts S.toSource (literal S) fun t => t.kind ≠ .eof ∧ t.kind ≠ .ident := by
  refine Starts.either ?_ (Starts.either ?_ ?_)
  · exact starts_token.bind.mono fun t ht => by simp [isKw_kind ht]
  · exact Starts.bind fun s v s' h => by simp [Source.token, h.1]
  · exact starts_token.bind.mono fun t ht => by simp [ht]

theorem starts_comparison : Starts S.toSource (comparison S) fun t => cmpOp t.kind ≠ none :=
  fun s op s' h => by simp [Source.token, h.1]

theorem cmpOp_kind {t : Token} (h : cmpOp t.kind ≠ none) : t.kind ≠ .kw := by
  intro hkind
  rw [hkind] at h
  exact h rfl

theorem shrinks_comparison : Shrinks S.toSource (comparison S) := by
  rintro s op s' ⟨-, rfl⟩
  exact S.size_le s

theorem starts_number : Starts S.toSource (number S) fun t => t.kind = .number := fun _ _ _ h => h.1

theorem shrinks_number : Shrinks S.toSource (number S) := by
  rintro s v s' ⟨-, -, rfl⟩
  exact S.size_le s

theorem shrinks_literal : Shrinks S.toSource (literal S) :=
  (shrinks_token.bind fun _ => shrinks_pure _).either
    ((shrinks_number.bind fun _ => shrinks_pure _).either
      (shrinks_token.bind fun _ => shrinks_pure _))

theorem shrinks_colType : Shrinks S.toSource (colType S) :=
  (shrinks_token.bind fun _ => shrinks_pure _).either (shrinks_token.bind fun _ => shrinks_pure _)

theorem shrinks_rhs : Shrinks S.toSource (rhs S) :=
  (shrinks_token.bind fun _ => shrinks_pure _).either (shrinks_literal.bind fun _ => shrinks_pure _)

theorem punct_eq (k : TokKind) : punct S k =
    .token S.toSource (fun t => decide (t.kind = k) = true) fun _ => () := by
  have hF : (fun t : Token => t.kind = k) = fun t => decide (t.kind = k) = true := by
    funext t
    simp
  unfold punct
  rw [hF]

theorem shrinks_predicate (w : Nodes) : Shrinks S.toSource (predicate S w) :=
  shrinks_token.bind fun _ =>
    (shrinks_token.bind fun _ => shrinks_literal.bind fun _ => shrinks_token.bind fun _ =>
      shrinks_literal.bind fun _ => shrinks_pure _).either
    ((shrinks_token.bind fun _ => shrinks_token.bind fun _ => shrinks_pure _).either
      (shrinks_comparison.bind fun _ => shrinks_rhs.bind fun _ => shrinks_pure _))

theorem shrinks_boolPrimary {inner : Nodes → Phrase σ (Nat × Nodes)}
    (h : ∀ w, Shrinks S.toSource (inner w)) (w : Nodes) :
    Shrinks S.toSource (boolPrimary S inner w) :=
  (shrinks_token.bind fun _ => (h w).bind fun _ => shrinks_token.bind fun _ =>
    shrinks_pure _).either (shrinks_predicate w)

def boolKw (t : Token) : Prop := isKw t "OR" = true ∨ isKw t "AND" = true

theorem shrinks_boolStep {kind : BinBool} {word : String} {phrase : Nodes → Phrase σ (Nat × Nodes)}
    (h : ∀ w, Shrinks S.toSource (phrase w)) (x : Nat × Nodes) :
    Shrinks S.toSource (boolStep S kind word phrase x) :=
  shrinks_token.bind fun _ => (h _).bind fun _ => shrinks_pure _

theorem boolStep_mono {kind : BinBool} {word : String}
    {phrase phrase' : Nodes → Phrase σ (Nat × Nodes)}
    (h : ∀ w s x s', S.size s < m → phrase w s x s' → phrase' w s x s') (x : Nat × Nodes) (s : σ)
    (y : Nat × Nodes) (s' : σ) (hs : S.size s < m) (hy : boolStep S kind word phrase x s y s') :
    boolStep S kind word phrase' x s y s' := by
  obtain ⟨u, s₁, hword, z, s₂, hz, hrest⟩ := hy
  exact ⟨u, s₁, hword, z, s₂, h _ _ _ _ (Nat.lt_of_le_of_lt (shrinks_token _ _ _ hword) hs) hz, hrest⟩

theorem shrinks_boolAnd {primary : Nodes → Phrase σ (Nat × Nodes)}
    (h : ∀ w, Shrinks S.toSource (primary w)) (w : Nodes) :
    Shrinks S.toSource (boolAnd S primary w) :=
  (h w).bind fun _ => Shrinks.fold (shrinks_boolStep h)

theorem shrinks_boolOr (d : Nat) (w : Nodes) : Shrinks S.toSource (boolOr S d w) := by
  induction d generalizing w with
  | zero => exact fun _ _ _ h => h.elim
  | succ d ih =>
    have hand := shrinks_boolAnd (shrinks_boolPrimary ih)
    exact (hand w).bind fun _ => Shrinks.fold (shrinks_boolStep hand)

theorem boolPrimary_mono {inner inner' : Nodes → Phrase σ (Nat × Nodes)}
    (h : ∀ w s x s', S.size s < m → inner w s x s' → inner' w s x s') (w : Nodes) (s : σ)
    (x : Nat × Nodes) (s' : σ) (hs : S.size s < m + 1) (hx : boolPrimary S inner w s x s') :
    boolPrimary S inner' w s x s' := by
  rcases hx with ⟨u, s₁, hparen, y, s₂, hy, hrest⟩ | hpred
  · have hlt : S.size s₁ < S.size s := by
      rw [hparen.2.2]
      exact S.size_lt s (S.solid_of _ (by rw [hparen.1]; decide))
    exact .inl ⟨u, s₁, hparen, y, s₂, h _ _ _ _ (by omega) hy, hrest⟩
  · exact .inr hpred

theorem boolAnd_mono {primary primary' : Nodes → Phrase σ (Nat × Nodes)}
    (h : ∀ w s x s', S.size s < m → primary w s x s' → primary' w s x s')
    (hshrinks : ∀ w, Shrinks S.toSource (primary w)) (w : Nodes) (s : σ) (x : Nat × Nodes) (s' : σ)
    (hs : S.size s < m) (hx : boolAnd S primary w s x s') : boolAnd S primary' w s x s' := by
  obtain ⟨y, s₁, hy, hfold⟩ := hx
  refine ⟨y, s₁, h _ _ _ _ hs hy, ?_⟩
  apply fold_mono (boolStep_mono h) (shrinks_boolStep hshrinks)
    (Nat.lt_of_le_of_lt (hshrinks _ _ _ _ hy) hs) hfold

theorem boolOr_depth {d n : Nat} {w : Nodes} {s s' : σ} {x : Nat × Nodes} (hs : S.size s < n)
    (h : boolOr S d w s x s') : boolOr S n w s x s' := by
  induction d generalizing n w s x s' with
  | zero => exact h.elim
  | succ d ih =>
    obtain ⟨n, rfl⟩ : ∃ k, n = k + 1 := ⟨n - 1, by omega⟩
    have hinner : ∀ w s x s', S.size s < n → boolOr S d w s x s' → boolOr S n w s x s' :=
      fun w s x s' hs hx => ih hs hx
    have hand := boolAnd_mono (boolPrimary_mono hinner) (shrinks_boolPrimary (shrinks_boolOr d))
    have hshrinks := shrinks_boolAnd (shrinks_boolPrimary (shrinks_boolOr (S := S) d))
    obtain ⟨y, s₁, hy, hfold⟩ := h
    refine ⟨y, s₁, hand _ _ _ _ hs hy, ?_⟩
    exact fold_mono (boolStep_mono hand) (shrinks_boolStep hshrinks)
      (Nat.lt_of_le_of_lt (hshrinks _ _ _ _ hy) hs) hfold

theorem readsAt_chain (kind : BinBool) {word : String} {K : Token → Prop}
    {operand : Nodes → Parse (Nat × Nodes)} {phrase : Nodes → Phrase σ (Nat × Nodes)}
    (hK : ∀ t, isKw t word = true → ¬K t)
    (hop : ∀ w, Reads S.toSource E m (operand w) (phrase w) fun _ => K)
    (hshrinks : ∀ w, Shrinks S.toSource (phrase w)) (hn : n ≤ m) (x : Nat × Nodes) (s : σ)
    (hs : S.size s < n) (hstop : ¬K (S.token s)) :
    ReadsAt S.toSource E s (chain kind word operand n x) (.Fold (boolStep S kind word phrase) x)
      fun _ t => isKw t word = true ∨ K t := by
  have heq : ∀ n x, chain kind word operand (n + 1) x = .look fun t =>
      if isKw t word = true then .next (operand x.2 >>= fun y =>
        chain kind word operand n (push y.2 (.andOr kind x.1 y.1)))
      else .done x := fun n x => rfl
  have hstart : ∀ x, Starts S.toSource (boolStep S kind word phrase x)
      fun t => isKw t word = true := fun x => starts_token.bind
  apply reads_fold hstart _ _ hn x s hs hstop
  · intro n x s hF
    rw [heq]
    show Reader.run _ _ (if isKw (S.token s) word = true then _ else _) s = _
    rw [if_neg hF]
    rfl
  · intro n x s hn hs hF ih
    rw [heq, boolStep]
    simp only [Phrase.bind_assoc, Phrase.pure_bind]
    apply ReadsAt.look
    rw [if_pos hF]
    apply ReadsAt.next hF
    have hlt : S.size (S.scan s).2 < n :=
      Nat.lt_of_lt_of_le (S.size_lt s (solid_of_isKw hF)) (Nat.le_of_lt_succ hs)
    apply (hop x.2 _ (by omega)).bind
    · intro y s' hy hK'
      exact ih _ s' (Nat.lt_of_le_of_lt (hshrinks _ _ _ _ hy) hlt) hK'
    · intro y s₁ z s₂ hy hz hend
      exact fold_stop hstart hK hz hend

theorem reads_boolAnd {primary : Nodes → Parse (Nat × Nodes)}
    {phrase : Nodes → Phrase σ (Nat × Nodes)}
    (hprimary : ∀ w, Reads S.toSource E n (primary w) (phrase w) noToken)
    (hshrinks : ∀ w, Shrinks S.toSource (phrase w)) (w : Nodes) :
    Reads S.toSource E n (parseBoolAnd n primary w) (boolAnd S phrase w)
      fun _ t => isKw t "AND" = true := by
  apply (hprimary w).bind (hshrinks w)
  intro x s hs
  have h : ReadsAt S.toSource E s (chain .and "AND" primary n x)
      (.Fold (boolStep S .and "AND" phrase) x) fun _ t => isKw t "AND" = true ∨ False :=
    readsAt_chain .and (fun _ _ => id) hprimary hshrinks (Nat.le_refl n) x s hs id
  simpa using h

variable (hE : Expected S E)
include hE

theorem reads_expected (F : Token → Prop) [DecidablePred F] (g : Token → α) (message : Text) :
    Reads S.toSource E m
      (.look fun t => if F t then .next (.done (g t)) else .fail (.parse message))
      (.token S.toSource F g) noToken := by
  intro s _
  apply readsAt_token
  · intro h
    show Reader.run _ _ (if F (S.token s) then _ else _) s = _
    rw [if_pos h]
    rfl
  · intro h
    refine ⟨_, hE.parse message, ?_⟩
    show Reader.run _ _ (if F (S.token s) then _ else _) s = _
    rw [if_neg h]
    rfl

theorem reads_expectKw (w : String) : Reads S.toSource E m (expectKw w) (kw S w) noToken :=
  reads_expected hE (fun t => isKw t w = true) _ _

theorem reads_expect (k : TokKind) (ctx : String) :
    Reads S.toSource E m (expect k ctx) (punct S k) noToken := by
  rw [punct_eq]
  exact reads_expected hE (fun t => decide (t.kind = k) = true) _ _

theorem reads_ident : Reads S.toSource E m parseIdent (ident S) noToken :=
  reads_expected hE (fun t => t.kind = .ident) _ _

theorem reads_tableName : Reads S.toSource E m parseQualifiedTable (tableName S) noToken :=
  reads_expected hE (fun t => t.kind = .ident) _ _

theorem reads_literal : Reads S.toSource E m parseLiteral (literal S) noToken := by
  have heq : parseLiteral = .look fun t =>
      if isKw t "NULL" then .next (.done .null)
      else if t.kind = .number then .ask t.text fun v => .next (.done (.int v))
      else if t.kind = .string then .next (.done (.string t.text))
      else .fail (.parse "expected literal".toList) := rfl
  rw [heq]
  apply Reads.token_or
  · intro t _
    exact reads_pure _
  · apply Reads.branch starts_number.bind
    · exact (Starts.bind starts_token).mono fun t ht hn => by simp [ht] at hn
    · intro s _ hn
      apply (ReadsAt.ask (P := fun v => .token S.toSource (fun t => t.kind = .number) fun _ => .int v)
        (hE.answer _) _).congr
      · rintro l s' -
        constructor
        · rintro ⟨v, s₁, ⟨_, hv, rfl⟩, rfl, rfl⟩
          exact ⟨v, hv, hn, rfl, rfl⟩
        · rintro ⟨v, hv, _, rfl, rfl⟩
          exact ⟨v, _, ⟨hn, hv, rfl⟩, rfl, rfl⟩
      · intro v _
        apply readsAt_token
        · exact fun _ => rfl
        · exact fun h => absurd hn h
    · apply Reads.token_then
      · intro t _
        exact reads_pure _
      · exact fun t => ⟨_, hE.parse _, rfl⟩
  · apply Starts.either
    · exact starts_number.bind.mono fun t ht => not_isKw_of_kind (by simp [ht])
    · exact (Starts.bind starts_token).mono fun t ht => not_isKw_of_kind (by simp [ht])

theorem reads_colType : Reads S.toSource E m parseColType (colType S) noToken := by
  have heq : parseColType = .look fun t =>
      if isKw t "INT" then .next (.done .int)
      else if isKw t "STRING" then .next (.done .string)
      else .fail (.parse "expected INT or STRING".toList) := rfl
  rw [heq]
  apply Reads.token_or
  · intro t _
    exact reads_pure _
  · apply Reads.token_then
    · intro t _
      exact reads_pure _
    · exact fun t => ⟨_, hE.parse _, rfl⟩
  · exact (Starts.bind starts_token).mono fun t ht => not_isKw ht (by decide)

theorem reads_columnAttrs (c : ColumnDef) : Reads S.toSource E n (columnAttrs n c)
    (.Fold (columnAttr S) c) fun _ => attrKw := by
  intro s hs
  have hG : (fun (_ : ColumnDef) => attrKw) = fun _ t => attrKw t ∨ False := by
    funext _ t
    simp
  rw [hG]
  apply reads_fold starts_columnAttr _ _ (Nat.le_refl n) c s hs id
  · intro n c s hF
    simp only [attrKw, not_or] at hF
    show Reader.run _ _ (if isKw (S.token s) "NOT" then _ else if isKw (S.token s) "INDEXED" then _
      else if isKw (S.token s) "DEFAULT" then _ else _) s = _
    rw [if_neg hF.1, if_neg hF.2.1, if_neg hF.2.2]
    rfl
  · intro n c s _ hs hF ih
    have heq : columnAttrs (n + 1) c = .look fun t =>
        if isKw t "NOT" then
          .next (expectKw "NULL" >>= fun _ => columnAttrs n { c with notNull := true })
        else if isKw t "INDEXED" then
          .next (columnAttrs n { c with indexed := true, notNull := true })
        else if isKw t "DEFAULT" then
          .next (parseLiteral >>= fun l => columnAttrs n (withDefault c l))
        else .done c := rfl
    have hrest : ∀ c, Reads S.toSource E n (columnAttrs n c) (.Fold (columnAttr S) c)
        fun _ t => attrKw t ∨ False := fun c s' hs' => ih c s' hs' id
    have hlt : ∀ w, isKw (S.token s) w = true → S.size (S.scan s).2 < n := fun w hw =>
      Nat.lt_of_lt_of_le (S.size_lt s (solid_of_isKw hw)) (Nat.le_of_lt_succ hs)
    unfold columnAttr
    rw [heq, Phrase.either_bind, Phrase.either_bind]
    simp only [Phrase.bind_assoc, Phrase.pure_bind]
    -- The branches in the order of the source; each goes on with what it made of the column.
    apply ReadsAt.look
    apply ReadsAt.either starts_token.bind
    · apply Starts.either
      · exact starts_token.bind.mono fun t ht => not_isKw ht (by decide)
      · exact starts_token.bind.mono fun t ht => not_isKw ht (by decide)
    · intro hnot
      rw [if_pos hnot]
      apply ReadsAt.next hnot
      exact (reads_expectKw hE "NULL").bind shrinks_token (fun _ => hrest _) _ (hlt _ hnot)
    intro hnot
    rw [if_neg hnot]
    apply ReadsAt.either starts_token.bind
    · exact starts_token.bind.mono fun t ht => not_isKw ht (by decide)
    · intro hindexed
      rw [if_pos hindexed]
      exact (hrest _ _ (hlt _ hindexed)).next hindexed
    intro hindexed
    have hdefault := (hF.resolve_left hnot).resolve_left hindexed
    rw [if_neg hindexed, if_pos hdefault]
    apply ReadsAt.next hdefault
    exact (reads_literal hE).bind shrinks_literal (fun l => hrest _) _ (hlt _ hdefault)

theorem reads_columnDef : Reads S.toSource E n (parseColumnDef n) (columnDef S) fun _ => attrKw :=
  (reads_ident hE).bind shrinks_token fun _ =>
    (reads_colType hE).bind shrinks_colType fun _ => reads_columnAttrs hE _

theorem reads_comparison : Reads S.toSource E m parseCmpOp (comparison S) noToken := by
  have heq : parseCmpOp = .look fun t =>
      (cmpOp t.kind).elim (.fail (.parse "expected comparison operator".toList))
        fun op => .next (.done op) := by
    show Reader.look _ = _
    congr 1
    funext t
    simp only [Reader.bind]
    cases cmpOp t.kind <;> rfl
  intro s _
  rw [heq]
  apply ReadsAt.look
  cases hop : cmpOp (S.token s).kind with
  | none =>
    apply (reads_fail (hE.parse "expected comparison operator".toList) s
      (Nat.lt_succ_self (S.size s))).congr
    rintro op s' -
    exact ⟨fun h => (by cases hop.symm.trans h.1), False.elim⟩
  | some op =>
    refine ⟨fun op' s' => ?_, fun e h => by cases h⟩
    show Except.ok (op, (S.scan s).2) = .ok (op', s') ↔ _
    constructor
    · intro h
      cases h
      exact ⟨⟨hop, rfl⟩, id⟩
    · rintro ⟨⟨h, rfl⟩, -⟩
      cases hop.symm.trans h
      rfl

theorem reads_rhs : Reads S.toSource E m parseRhs (rhs S) noToken := by
  have heq : parseRhs = .look fun t => if decide (t.kind = .ident) = true then
      parseIdent >>= fun a => pure (.col a) else parseLiteral >>= fun l => pure (.lit l) := rfl
  rw [heq]
  simp only [decide_eq_true_eq]
  apply Reads.branch starts_token.bind
  · exact starts_literal.bind.mono fun t ht hident => ht.2 hident
  · exact fun s hs _ => (reads_ident hE).value s hs
  · exact (reads_literal hE).value.look

theorem reads_condition (w : Nodes) (col : Text) : Reads S.toSource E m
    (.look fun t =>
      if isKw t "BETWEEN" then .next (parseLiteral >>= fun a => expectKw "AND" >>= fun _ =>
        parseLiteral >>= fun b => pure (push w (.between col a b)))
      else .look fun t =>
        if isKw t "LIKE" then .next (.look fun t =>
          if t.kind = .string then .next (.done (push w (.like col t.text)))
          else .fail (.parse "LIKE expects string pattern".toList))
        else parseCmpOp >>= fun op => parseRhs >>= fun r => pure (push w (.cmp col op r)))
    (condition S w col) noToken := by
  apply Reads.token_or
  · intro t _
    exact (reads_literal hE).bind shrinks_literal fun a => (reads_expectKw hE "AND").bind
      shrinks_token fun _ => (reads_literal hE).value
  · apply Reads.look
    apply Reads.token_or
    · intro t _
      apply Reads.token_then
      · intro t _
        exact reads_pure _
      · exact fun t => ⟨_, hE.parse _, rfl⟩
    · exact ((reads_comparison hE).bind shrinks_comparison fun op =>
        (reads_rhs hE).value).look
    · exact starts_comparison.bind.mono fun t ht => not_isKw_of_kind (cmpOp_kind ht)
  · apply Starts.either
    · exact starts_token.bind.mono fun t ht => not_isKw ht (by decide)
    · exact starts_comparison.bind.mono fun t ht => not_isKw_of_kind (cmpOp_kind ht)

theorem reads_predicate (w : Nodes) :
    Reads S.toSource E m (parsePredicate w) (predicate S w) noToken :=
  (reads_ident hE).bind shrinks_token fun col => reads_condition hE w col

theorem reads_boolPrimary {parser : Nodes → Parse (Nat × Nodes)}
    {inner : Nodes → Phrase σ (Nat × Nodes)}
    (hinner : ∀ w, Reads S.toSource E m (parser w) (inner w) fun _ => boolKw)
    (hshrinks : ∀ w, Shrinks S.toSource (inner w)) (w : Nodes) :
    Reads S.toSource E (m + 1) (parseBoolPrimary parser w) (boolPrimary S inner w) noToken := by
  have heq : parseBoolPrimary parser w = .look fun t =>
      if decide (t.kind = .lParen) = true then .next (parser w >>= fun x =>
        expect .rParen "where paren" >>= fun _ => pure (push x.2 (.paren x.1)))
      else parsePredicate w := rfl
  unfold boolPrimary
  rw [heq, punct_eq .lParen]
  apply Reads.token_or_lt
  · intro t ht
    apply S.solid_of
    simp only [decide_eq_true_eq] at ht
    simp [ht]
  · intro t _
    apply (hinner w).bind_starts (hshrinks w)
    · intro x
      exact (reads_expect hE .rParen "where paren").value
    · exact fun _ => starts_token.bind
    · rintro x t ht (h | h)
      · exact not_isKw_of_kind (by simp [ht]) h
      · exact not_isKw_of_kind (by simp [ht]) h
  · exact (reads_predicate hE w).look
  · exact starts_token.bind.mono fun t ht => by simp [ht]

theorem reads_boolOr (n : Nat) (w : Nodes) : Reads S.toSource E n (parseBoolOr n w) (boolOr S n w)
    fun _ => boolKw := by
  induction n generalizing w with
  | zero => exact fun s hs => absurd hs (Nat.not_lt_zero _)
  | succ n ih =>
    intro s hs
    have hand := reads_boolAnd (reads_boolPrimary hE ih (shrinks_boolOr n))
      (shrinks_boolPrimary (shrinks_boolOr n))
    have hshrinks := shrinks_boolAnd (shrinks_boolPrimary (shrinks_boolOr (S := S) n))
    have hK : ∀ t, isKw t "OR" = true → ¬isKw t "AND" = true := fun t ht => not_isKw ht (by decide)
    apply (hand w s hs).bind
    · intro x s' hx hstop
      exact readsAt_chain .or hK hand hshrinks (Nat.le_refl _) x s'
        (Nat.lt_of_le_of_lt (hshrinks _ _ _ _ hx) hs) hstop
    · intro x s' y s₂ _ hfold hstop
      exact fold_stop (F := fun t => isKw t "OR" = true) (fun _ => starts_token.bind) hK hfold hstop

theorem reads_where : Reads S.toSource E n (parseWhere n) (whereClause S)
    fun w t => whereGoesOn w t = true := by
  have heq : parseWhere n = .look fun t =>
      if isKw t "WHERE" = true then .next (parseBoolOr n [] >>= fun x =>
        pure { nodes := x.2, root := some x.1 })
      else .done {} := rfl
  intro s hs
  rw [heq]
  apply ReadsAt.optional
  · intro _
    have hlt : S.size (S.scan s).2 < n := Nat.lt_of_le_of_lt (S.size_le s) hs
    have hexpr : ReadsAt S.toSource E (S.scan s).2 (parseBoolOr n []) (boolExpr S)
        fun _ => boolKw := by
      apply (reads_boolOr hE n [] _ hlt).congr
      rintro x s' -
      exact ⟨fun ⟨d, hd⟩ => boolOr_depth hlt hd, fun h => ⟨n, h⟩⟩
    apply hexpr.map
    intro x s' _
    simp [whereGoesOn, boolKw, or_comm]
  · simp [whereGoesOn]

end
end Grammar
end Dbms.Sql
