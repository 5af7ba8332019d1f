import Dbms.Sql.Recognise

/-! The parser reads exactly the statements of the grammar that the next token does not carry on. -/

open Dbms.Core Dbms.Lib

namespace Dbms.Sql

namespace Grammar
open Dbms.Sql.Parser hiding cur

section
variable {σ α β : Type} {S : TokenSource σ} {E : ParseErr → Prop} {m n : Nat}

theorem shrinks_list {item : Phrase σ α} (h : Shrinks S.toSource item) :
    Shrinks S.toSource (list S item) := Shrinks.listOf shrinks_token h

theorem reads_list {item : Parse α} {D : Phrase σ α} {K : α → Token → Prop}
    (hK : ∀ a t, t.kind = .comma → ¬K a t) (hitem : Reads S.toSource E m item D K)
    (hD : Shrinks S.toSource D) (hn : n ≤ m) :
    Reads S.toSource E n (commaList item n) (list S D)
      fun as t => t.kind = .comma ∨ lastGoesOn K as t := by
  have hG : (fun (as : List α) (t : Token) => t.kind = .comma ∨ lastGoesOn K as t) =
      fun as t => decide (t.kind = .comma) = true ∨ lastGoesOn K as t := by
    funext as t
    simp
  unfold list
  rw [hG, punct_eq]
  apply reads_listOf _ _ (fun n => rfl) hitem hD hn
  · intro t ht
    apply S.solid_of
    simp only [decide_eq_true_eq] at ht
    simp [ht]
  · intro a t ht
    exact hK a t (by simpa using ht)

theorem reads_list_complete {item : Parse α} {D : Phrase σ α}
    (hitem : Reads S.toSource E m item D noToken) (hD : Shrinks S.toSource D) (hn : n ≤ m) :
    Reads S.toSource E n (commaList item n) (list S D) fun _ t => t.kind = .comma := by
  intro s hs
  apply (reads_list (fun _ _ _ => id) hitem hD hn s hs).congr_goesOn
  rintro as s' -
  simp [lastGoesOn]

theorem rParen_ne {t : Token} (ht : t.kind = .rParen) : t.kind ≠ .comma := by simp [ht]

theorem shrinks_starOrIdent : Shrinks S.toSource (starOrIdent S) :=
  (shrinks_token.bind fun _ => shrinks_pure _).either shrinks_token

theorem shrinks_aggregate {word : String} {agg : AggFn} {arg : Phrase σ Text}
    (h : Shrinks S.toSource arg) : Shrinks S.toSource (aggregate S word agg arg) :=
  shrinks_token.bind fun _ => shrinks_token.bind fun _ => h.bind fun _ =>
    shrinks_token.bind fun _ => shrinks_pure _

theorem shrinks_selectExpr : Shrinks S.toSource (selectExpr S) :=
  (shrinks_aggregate shrinks_token).either ((shrinks_aggregate shrinks_starOrIdent).either
    ((shrinks_aggregate shrinks_token).either (shrinks_token.bind fun _ => shrinks_pure _)))

theorem shrinks_selectItem : Shrinks S.toSource (selectItem S) :=
  shrinks_selectExpr.bind fun _ => (shrinks_token.bind fun _ => shrinks_token.bind fun _ =>
    shrinks_pure _).either (shrinks_pure _)

theorem shrinks_tuple : Shrinks S.toSource (tuple S) :=
  shrinks_token.bind fun _ => (shrinks_list shrinks_literal).bind fun _ =>
    shrinks_token.bind fun _ => shrinks_pure _

theorem shrinks_valueKw : Shrinks S.toSource (valueKw S) := shrinks_token.either shrinks_token

theorem shrinks_set : Shrinks S.toSource (set S) :=
  shrinks_token.bind fun _ => shrinks_token.bind fun _ => shrinks_literal.bind fun _ =>
    shrinks_pure _

theorem shrinks_columnAttr (c : ColumnDef) : Shrinks S.toSource (columnAttr S c) :=
  (shrinks_token.bind fun _ => shrinks_token.bind fun _ => shrinks_pure _).either
    ((shrinks_token.bind fun _ => shrinks_pure _).either
      (shrinks_token.bind fun _ => shrinks_literal.bind fun _ => shrinks_pure _))

theorem shrinks_columnDef : Shrinks S.toSource (columnDef S) :=
  shrinks_token.bind fun _ => shrinks_colType.bind fun _ => Shrinks.fold shrinks_columnAttr

variable (hE : Expected S E)
include hE

theorem reads_starOrIdent : Reads S.toSource E m Parser.starOrIdent (starOrIdent S) noToken := by
  have heq : Parser.starOrIdent = .look fun t =>
      if decide (t.kind = .star) = true then .next (.done "*".toList) else parseIdent := rfl
  unfold starOrIdent
  rw [heq, punct_eq]
  apply Reads.token_or
  · intro t _
    exact reads_pure _
  · exact (reads_ident hE).look
  · exact starts_token.mono fun t ht => by simp [ht]

theorem reads_aggregate {agg : AggFn} {ctx : String} {arg : Parse Text}
    {D : Phrase σ Text} (harg : Reads S.toSource E m arg D noToken) (hD : Shrinks S.toSource D) :
    Reads S.toSource E m (expect .lParen ctx >>= fun _ => arg >>= fun col =>
      expect .rParen ctx >>= fun _ => pure ({ agg := agg, col := col } : SelectItem))
      (punct S .lParen >>= fun _ => D >>= fun col => punct S .rParen >>= fun _ =>
        pure { agg := agg, col := col }) noToken :=
  (reads_expect hE .lParen ctx).bind shrinks_token fun _ => harg.bind hD fun _ =>
    (reads_expect hE .rParen ctx).value

theorem reads_selectExpr : Reads S.toSource E m parseSelectExpr (selectExpr S) noToken := by
  have heq : parseSelectExpr = .look fun t =>
      if isKw t "SUM" then .next (expect .lParen "sum" >>= fun _ => parseIdent >>= fun col =>
        expect .rParen "sum" >>= fun _ => pure { agg := .sum, col := col })
      else if isKw t "COUNT" then .next (expect .lParen "count" >>= fun _ =>
        Parser.starOrIdent >>= fun col => expect .rParen "count" >>= fun _ =>
        pure { agg := .count, col := col })
      else if isKw t "AVG" then .next (expect .lParen "avg" >>= fun _ => parseIdent >>= fun col =>
        expect .rParen "avg" >>= fun _ => pure { agg := .avg, col := col })
      else parseIdent >>= fun col => pure { col := col } := rfl
  have hident : ∀ w, Starts S.toSource (ident S >>= fun col => pure ({ col := col } : SelectItem))
      fun t => ¬isKw t w = true := fun w =>
    starts_token.bind.mono fun t ht => not_isKw_of_kind (by simp [ht])
  rw [heq]
  apply Reads.token_or
  · intro t _
    exact reads_aggregate hE (reads_ident hE) shrinks_token
  · apply Reads.token_or
    · intro t _
      exact reads_aggregate hE (reads_starOrIdent hE) shrinks_starOrIdent
    · apply Reads.token_or
      · intro t _
        exact reads_aggregate hE (reads_ident hE) shrinks_token
      · exact (reads_ident hE).value.look
      · exact hident _
    · exact Starts.either (starts_token.bind.mono fun t ht => not_isKw ht (by decide)) (hident _)
  · refine Starts.either (starts_token.bind.mono fun t ht => not_isKw ht (by decide))
      (Starts.either ?_ ?_)
    · exact starts_token.bind.mono fun t ht => not_isKw ht (by decide)
    · exact hident _

omit hE in
theorem selectExpr_aliasName {s s' : σ} {it : SelectItem} (h : selectExpr S s it s') :
    it.aliasName = [] := by
  rcases h with h | h | h | h
  · obtain ⟨_, _, _, _, _, _, _, _, _, _, _, _, rfl, _⟩ := h
    rfl
  · obtain ⟨_, _, _, _, _, _, _, _, _, _, _, _, rfl, _⟩ := h
    rfl
  · obtain ⟨_, _, _, _, _, _, _, _, _, _, _, _, rfl, _⟩ := h
    rfl
  · obtain ⟨_, _, _, rfl, _⟩ := h
    rfl

theorem reads_selectItem : Reads S.toSource E m parseSelectItem (selectItem S)
    fun it t => it.aliasName = [] ∧ isKw t "AS" = true := by
  intro s hs
  apply (reads_selectExpr hE s hs).bind
  · intro it s' hit _
    have halias := selectExpr_aliasName hit
    apply ReadsAt.optional (F := fun t => isKw t "AS" = true)
    · intro _
      have hlt : S.size (S.scan s').2 < m :=
        Nat.lt_of_le_of_lt (Nat.le_trans (S.size_le s') (shrinks_selectExpr _ _ _ hit)) hs
      apply (reads_ident hE _ hlt).map
      intro a s₂ ha
      have hne : a ≠ [] := ha.2.1 ▸ S.ident_ne _ ha.1
      simp [hne, noToken]
    · simp [halias]
  · exact fun _ _ _ _ _ _ _ => id

theorem reads_tuple : Reads S.toSource E n (parseTuple n) (tuple S) noToken :=
  (reads_expect hE .lParen "values").bind shrinks_token fun _ =>
    (reads_list_complete (reads_literal hE) shrinks_literal (Nat.le_refl n)).bind_starts
      (shrinks_list shrinks_literal) (fun _ => (reads_expect hE .rParen "values").value)
      (fun _ => starts_token.bind) fun _ _ => rParen_ne

theorem reads_valueKw : Reads S.toSource E m parseValueKw (valueKw S) noToken := by
  intro s hs
  apply ReadsAt.congr (reads_expected hE
    (fun t => (isKw t "VALUE" || isKw t "VALUES") = true) (fun _ => ()) _ s hs)
  rintro u s' -
  constructor
  · rintro (⟨hvalue, -, hs'⟩ | ⟨hvalues, -, hs'⟩)
    · exact ⟨by simp [hvalue], rfl, hs'⟩
    · exact ⟨by simp [hvalues], rfl, hs'⟩
  · rintro ⟨hword, -, hs'⟩
    rcases Bool.or_eq_true_iff.mp hword with h | h
    · exact .inl ⟨h, rfl, hs'⟩
    · exact .inr ⟨h, rfl, hs'⟩

theorem reads_set : Reads S.toSource E m parseSet (set S) noToken :=
  (reads_ident hE).bind shrinks_token fun _ => (reads_expect hE .eq "set").bind shrinks_token
    fun _ => (reads_literal hE).value

theorem reads_password : Reads S.toSource E m parsePassword (password S) noToken := by
  obtain ⟨text, heq, hstring, hfails⟩ : ∃ text : Literal → Parse Text,
      parsePassword = (expectKw "PASSWORD" >>= fun _ => parseLiteral >>= text) ∧
        (∀ a, text (.string a) = pure a) ∧
        ∀ l, (∀ a, l ≠ .string a) → text l = throwParse "password must be string".toList := by
    refine ⟨_, rfl, fun a => rfl, fun l hl => ?_⟩
    cases l with
    | string a => exact absurd rfl (hl a)
    | _ => rfl
  have hliteral : Reads S.toSource E m (parseLiteral >>= text) (stringText S) noToken := by
    intro s hs
    have hother : ∀ l, (∀ a, l ≠ Literal.string a) → Reads S.toSource E m
        (throwParse "password must be string".toList : Parse Text)
        (fun s a s' => l = .string a ∧ s' = s) noToken := by
      intro l hl s hs
      apply (reads_fail (hE.parse _) s hs).congr
      rintro a s' -
      exact ⟨fun h => hl a h.1, False.elim⟩
    apply ReadsAt.congr ((reads_literal hE).bind shrinks_literal
      (M := fun l s a s' => l = .string a ∧ s' = s) _ s hs)
    · rintro a s' -
      constructor
      · exact fun h => ⟨_, _, .inr (.inr ⟨a, s', h, rfl, rfl⟩), rfl, rfl⟩
      · rintro ⟨l, s₁, h, rfl, rfl⟩
        rcases h with ⟨_, _, _, h, _⟩ | ⟨_, _, _, h, _⟩ | ⟨_, _, h, hl, rfl⟩
        · cases h
        · cases h
        · cases hl
          exact h
    · intro l
      by_cases hl : ∃ a, l = .string a
      · obtain ⟨a, rfl⟩ := hl
        rw [hstring]
        intro s hs
        apply (reads_pure a s hs).congr
        rintro b s' -
        exact and_congr_left fun _ => ⟨fun h => by cases h; rfl, fun h => by rw [h]⟩
      · have hl : ∀ a, l ≠ .string a := fun a h => hl ⟨a, h⟩
        rw [hfails l hl]
        exact hother l hl
  rw [heq]
  exact (reads_expectKw hE "PASSWORD").bind shrinks_token fun _ => hliteral

theorem reads_insert : Reads S.toSource E n (parseInsert n) (insert S)
    fun st t => goesOn st t = true :=
  (reads_expectKw hE "INTO").bind shrinks_token fun _ =>
    (reads_tableName hE).bind shrinks_token fun _ =>
    (reads_expect hE .lParen "insert").bind shrinks_token fun _ =>
    (reads_list_complete (reads_ident hE) shrinks_token (Nat.le_refl n)).bind_starts
      (shrinks_list shrinks_token)
      (fun _ => (reads_expect hE .rParen "insert").bind shrinks_token fun _ =>
        (reads_valueKw hE).bind shrinks_valueKw fun _ =>
        (reads_list_complete (reads_tuple hE) shrinks_tuple (Nat.le_refl n)).map
          fun _ t => by simp [goesOn])
      (fun _ => starts_token.bind) fun _ _ => rParen_ne

theorem reads_select : Reads S.toSource E n (parseSelect n) (select S)
    fun st t => goesOn st t = true := by
  have hfrom : ∀ items, Reads S.toSource E n
      (expectKw "FROM" >>= fun _ => parseQualifiedTable >>= fun table =>
        parseWhere n >>= fun w => pure (Statement.select items table w))
      (kw S "FROM" >>= fun _ => tableName S >>= fun table => whereClause S >>= fun w =>
        pure (Statement.select items table w)) fun st t => goesOn st t = true := fun items =>
    (reads_expectKw hE "FROM").bind shrinks_token fun _ => (reads_tableName hE).bind shrinks_token
      fun _ => (reads_where hE).map fun _ _ => Iff.rfl
  have heq : parseSelect n = .look fun t =>
      if decide (t.kind = .star) = true then
        .next (expectKw "FROM" >>= fun _ => parseQualifiedTable >>= fun table =>
          parseWhere n >>= fun w => pure (Statement.select [{ col := "*".toList }] table w))
      else commaList parseSelectItem n >>= fun items => expectKw "FROM" >>= fun _ =>
        parseQualifiedTable >>= fun table =>
          parseWhere n >>= fun w => pure (Statement.select items table w) := by
    have hite : ∀ (c : Bool) (p q : Parse (List SelectItem)) (f : List SelectItem → Parse Statement),
        (if c = true then p else q) >>= f = if c = true then p >>= f else q >>= f := by
      intro c p q f
      cases c <;> rfl
    exact congrArg Reader.look (funext fun t => hite _ _ _ _)
  intro s hs
  unfold select selectItems
  rw [heq, Phrase.either_bind, Phrase.bind_assoc, punct_eq]
  simp only [Phrase.pure_bind]
  apply Reads.token_or _ _ _ s hs
  · exact fun t _ => hfrom _
  · apply Reads.look
    have hcomma : ∀ (it : SelectItem) (t : Token), t.kind = .comma →
        ¬(it.aliasName = [] ∧ isKw t "AS" = true) :=
      fun it t ht h => not_isKw_of_kind (by simp [ht]) h.2
    apply (reads_list hcomma (reads_selectItem hE) shrinks_selectItem (Nat.le_refl n)).bind_starts
      (shrinks_list shrinks_selectItem) hfrom fun _ => starts_token.bind
    rintro its t ht (h | ⟨it, -, -, h⟩)
    · have hkind := isKw_kind ht
      rw [h] at hkind
      cases hkind
    · exact not_isKw ht (by decide) h
  · have hexpr : Starts S.toSource (selectExpr S) fun t => ¬decide (t.kind = .star) = true := by
      refine Starts.either ?_ (Starts.either ?_ (Starts.either ?_ ?_))
      · exact starts_token.bind.mono fun t ht => by simp [isKw_kind ht]
      · exact starts_token.bind.mono fun t ht => by simp [isKw_kind ht]
      · exact starts_token.bind.mono fun t ht => by simp [isKw_kind ht]
      · exact starts_token.bind.mono fun t ht => by simp [ht]
    exact (Starts.listOf hexpr.bind).bind

omit hE in
theorem whereClause_none {s s' : σ} {w : WhereClause} (h : whereClause S s w s')
    (hroot : w.root = none) : s' = s := by
  rcases h with ⟨_, _, _, _, _, _, rfl, _⟩ | ⟨_, rfl⟩
  · cases hroot
  · rfl

theorem reads_update : Reads S.toSource E n (parseUpdate n) (update S)
    fun st t => goesOn st t = true := by
  refine (reads_tableName hE).bind shrinks_token fun table =>
    (reads_expectKw hE "SET").bind shrinks_token fun _ s hs => ?_
  apply (reads_list_complete (reads_set hE) shrinks_set (Nat.le_refl n) s hs).bind
  · intro sets s₁ hsets hcomma
    have hlt := Nat.lt_of_le_of_lt (shrinks_list shrinks_set _ _ _ hsets) hs
    apply (reads_where hE s₁ hlt).map
    intro w s₂ hw
    by_cases hroot : w.root = none
    · have heq := whereClause_none hw hroot
      subst heq
      simp [goesOn, hcomma]
    · simp [goesOn, hroot]
  · rintro sets s₁ st s₃ - ⟨w, s₂, hw, rfl, rfl⟩ hstop hcomma
    rcases hw with ⟨u, s₄, hkw, -⟩ | ⟨rfl, rfl⟩
    · have hkind := isKw_kind hkw.1
      rw [show (S.scan s₁).1.kind = TokKind.comma from hcomma] at hkind
      cases hkind
    · exact hstop (by simp [goesOn, hcomma])

theorem reads_delete : Reads S.toSource E n (parseDelete n) (delete S)
    fun st t => goesOn st t = true :=
  (reads_expectKw hE "FROM").bind shrinks_token fun _ => (reads_tableName hE).bind shrinks_token
    fun _ => (reads_where hE).map fun _ _ => Iff.rfl

theorem reads_createTable : Reads S.toSource E n (parseCreateTable n)
    (tableName S >>= fun table => punct S .lParen >>= fun _ =>
      list S (columnDef S) >>= fun columns => punct S .rParen >>= fun _ =>
        pure (.createTable table columns)) noToken := by
  have hcomma : ∀ (c : ColumnDef) (t : Token), t.kind = .comma → ¬attrKw t := by
    rintro c t ht (h | h | h) <;> exact not_isKw_of_kind (by simp [ht]) h
  refine (reads_tableName hE).bind shrinks_token fun table =>
    (reads_expect hE .lParen "create table").bind shrinks_token fun _ => ?_
  apply (reads_list hcomma (reads_columnDef hE) shrinks_columnDef (Nat.le_refl n)).bind_starts
    (shrinks_list shrinks_columnDef)
    (fun columns => (reads_expect hE .rParen "create table").value) fun _ => starts_token.bind
  rintro columns t ht (h | ⟨c, -, h⟩)
  · exact rParen_ne ht h
  · rcases h with h | h | h <;> exact not_isKw_of_kind (by simp [ht]) h

theorem reads_create : Reads S.toSource E n (parseCreate n) (create S) noToken := by
  have heq : parseCreate n = .look fun t =>
      if isKw t "DATABASE" then .next (parseIdent >>= fun name => pure (.createDatabase name))
      else if isKw t "TABLE" then .next (parseCreateTable n)
      else if isKw t "USER" then .next (parseIdent >>= fun user => parsePassword >>= fun p =>
        pure (.authCreateUser user p))
      else if isKw t "GROUP" then .next (parseIdent >>= fun group => pure (.authCreateGroup group))
      else .fail (.parse "CREATE what?".toList) := rfl
  rw [heq]
  apply Reads.token_or
  · exact fun t _ => (reads_ident hE).value
  · apply Reads.token_or
    · exact fun t _ => reads_createTable hE
    · apply Reads.token_or
      · exact fun t _ => (reads_ident hE).bind shrinks_token fun _ => (reads_password hE).value
      · apply Reads.token_then
        · exact fun t _ => (reads_ident hE).value
        · exact fun t => ⟨_, hE.parse _, rfl⟩
      · exact starts_token.bind.mono fun t ht => not_isKw ht (by decide)
    · apply Starts.either
      · exact starts_token.bind.mono fun t ht => not_isKw ht (by decide)
      · exact starts_token.bind.mono fun t ht => not_isKw ht (by decide)
  · refine Starts.either ?_ (Starts.either ?_ ?_)
    · exact starts_token.bind.mono fun t ht => not_isKw ht (by decide)
    · exact starts_token.bind.mono fun t ht => not_isKw ht (by decide)
    · exact starts_token.bind.mono fun t ht => not_isKw ht (by decide)

theorem reads_drop : Reads S.toSource E m parseDrop (drop S) noToken := by
  have heq : parseDrop = .look fun t =>
      if isKw t "DATABASE" then .next (parseIdent >>= fun name => pure (.dropDatabase name))
      else if isKw t "TABLE" then .next (parseQualifiedTable >>= fun table =>
        pure (.dropTable table))
      else .fail (.parse "DROP what?".toList) := rfl
  rw [heq]
  apply Reads.token_or
  · exact fun t _ => (reads_ident hE).value
  · apply Reads.token_then
    · exact fun t _ => (reads_tableName hE).value
    · exact fun t => ⟨_, hE.parse _, rfl⟩
  · exact starts_token.bind.mono fun t ht => not_isKw ht (by decide)

theorem reads_revert : Reads S.toSource E m parseRevert (revert S) noToken := by
  refine (reads_tableName hE).bind shrinks_token fun hint => ?_
  apply Reads.token_then
  · exact fun t _ => reads_pure _
  · exact fun t => ⟨_, hE.parse _, rfl⟩

theorem reads_login : Reads S.toSource E m parseLogin (login S) noToken :=
  (reads_expectKw hE "USER").bind shrinks_token fun _ => (reads_ident hE).bind shrinks_token
    fun _ => (reads_password hE).value

theorem reads_grant : Reads S.toSource E m parseGrant (grant S) noToken :=
  (reads_ident hE).bind shrinks_token fun _ => (reads_expectKw hE "ON").bind shrinks_token fun _ =>
    (reads_ident hE).bind shrinks_token fun _ => (reads_expectKw hE "TO").bind shrinks_token
    fun _ => (reads_expectKw hE "USER").bind shrinks_token fun _ => (reads_ident hE).value

omit hE in
/-- Statements that end with a token of their own. -/
theorem reads_goesOn {p : Parse Statement} {D : Phrase σ Statement}
    (hp : Reads S.toSource E m p D noToken) (hD : Gives D fun st => ∀ t, goesOn st t = false) :
    Reads S.toSource E m p D fun st t => goesOn st t = true := by
  intro s hs
  apply (hp s hs).congr_goesOn
  intro st s' hst
  simp [hD s st s' hst, noToken]

omit hE in
theorem reads_ite {c c' : Prop} [Decidable c] [Decidable c'] {p q : Parse α} {D D' : Phrase σ α}
    {G : α → Token → Prop} (hc : c ↔ c') (hp : Reads S.toSource E m p D G)
    (hq : Reads S.toSource E m q D' G) :
    Reads S.toSource E m (if c then p else q) (if c' then D else D') G := by
  by_cases h : c
  · rw [if_pos h, if_pos (hc.mp h)]
    exact hp
  · rw [if_neg h, if_neg fun h' => h (hc.mpr h')]
    exact hq

theorem reads_form (word : String) : Reads S.toSource E n (parseBody n word.toList) (form S word)
    fun st t => goesOn st t = true := by
  have hword : ∀ w : String, word.toList = w.toList ↔ word = w :=
    fun w => ⟨fun h => String.toList_injective h, fun h => by rw [h]⟩
  have hrevert : Gives (revert S) fun st => ∀ t, goesOn st t = false :=
    Gives.bind fun _ => Gives.bind fun _ => gives_pure fun _ => rfl
  unfold parseBody form
  apply reads_ite (hword _)
  · apply reads_goesOn (reads_create hE)
    refine Gives.either ?_ (Gives.either ?_ (Gives.either ?_ ?_))
    · exact Gives.bind fun _ => Gives.bind fun _ => gives_pure fun _ => rfl
    · exact Gives.bind fun _ => Gives.bind fun _ => Gives.bind fun _ => Gives.bind fun _ =>
        Gives.bind fun _ => gives_pure fun _ => rfl
    · exact Gives.bind fun _ => Gives.bind fun _ => Gives.bind fun _ => gives_pure fun _ => rfl
    · exact Gives.bind fun _ => Gives.bind fun _ => gives_pure fun _ => rfl
  apply reads_ite (hword _)
  · apply reads_goesOn (reads_drop hE)
    apply Gives.either
    · exact Gives.bind fun _ => Gives.bind fun _ => gives_pure fun _ => rfl
    · exact Gives.bind fun _ => Gives.bind fun _ => gives_pure fun _ => rfl
  apply reads_ite (hword _)
  · apply reads_goesOn (reads_ident hE).value
    exact Gives.bind fun _ => gives_pure fun _ => rfl
  apply reads_ite (hword _) (reads_insert hE)
  apply reads_ite (hword _) (reads_update hE)
  apply reads_ite (hword _) (reads_delete hE)
  apply reads_ite (hword _) (reads_select hE)
  apply reads_ite (hword _) (reads_goesOn (reads_revert hE) hrevert)
  apply reads_ite (hword _)
  · apply reads_goesOn (reads_login hE)
    exact Gives.bind fun _ => Gives.bind fun _ => Gives.bind fun _ => gives_pure fun _ => rfl
  apply reads_ite (hword _)
  · apply reads_goesOn (reads_grant hE)
    exact Gives.bind fun _ => Gives.bind fun _ => Gives.bind fun _ => Gives.bind fun _ =>
      Gives.bind fun _ => Gives.bind fun _ => gives_pure fun _ => rfl
  · exact reads_fail (hE.parse _)

theorem reads_statement : Reads S.toSource E n (parseOne n) (statement S)
    fun st t => goesOn st t = true := by
  have heq : parseOne n = .look fun t =>
      if t.kind = .kw then .next (parseBody n t.text)
      else .fail (.parse "statement must start with keyword".toList) := rfl
  intro s hs
  rw [heq]
  apply ReadsAt.look
  by_cases hkind : (S.token s).kind = .kw
  · obtain ⟨word, hword⟩ : ∃ word : String, (S.token s).text = word.toList :=
      ⟨String.ofList (S.token s).text, String.toList_ofList.symm⟩
    have hkw : isKw (S.token s) word = true := by simp [isKw, hkind, hword]
    rw [if_pos hkind, hword]
    have hform : ReadsAt S.toSource E s (.next (parseBody n word.toList))
        (kw S word >>= fun _ => form S word) fun st t => goesOn st t = true :=
      ReadsAt.next hkw (reads_form hE word _ (Nat.lt_of_le_of_lt (S.size_le s) hs))
    apply hform.congr
    rintro st s' -
    refine ⟨?_, fun h => ⟨word, h⟩⟩
    rintro ⟨w, u, s₁, hw, hst⟩
    have hsame := isKw_unique hw.1 hkw
    subst hsame
    exact ⟨u, s₁, hw, hst⟩
  · rw [if_neg hkind]
    apply (reads_fail (hE.parse _) s hs).congr
    rintro st s' -
    refine ⟨?_, False.elim⟩
    rintro ⟨w, u, s₁, hw, -⟩
    exact hkind (isKw_kind hw.1)

end
end Grammar
end Dbms.Sql
