import Dbms.Client.Splitter

/-! What the batch client sends of a script, and what the server's lexer makes of it. -/

open Dbms.Core Dbms.Sql Dbms.Sql.Lexer

namespace Dbms.Client

/-- The lexer gets to the end of the text without an unknown character and without a string that is
not closed; the number bounds the tokens. -/
def legibleUpTo : Nat → Text → Bool
  | 0, _ => false
  | n + 1, s =>
    match skipWs false s with
    | [] => true
    | c :: s =>
      (scan c s).1.kind ≠ .eof && (c ≠ quote || (s.dropWhile inString).head? = some quote) &&
        legibleUpTo n (scan c s).2

def Legible (s : Text) : Prop := legibleUpTo (s.length + 1) s = true

/-- The statements of a script that are not empty, as the tokens between its semicolons. -/
def statements (ts : List Token) : List (List Token) :=
  (ts.splitOnP fun t => t.kind = .semicolon).filter (· ≠ [])

/-- Each piece that is sent has the tokens of one statement of the script, for all of them in order. -/
def SendsScript (script : Text) : Prop :=
  (splitSqlStatements script).map (fun piece => tokens (flattenSql piece)) =
    (statements (tokens script).dropLast).map (· ++ [⟨.eof, []⟩])

/-- No string has a tab or a line break, and each comment has a token before it and none behind. -/
structure Tame (g : List Item) : Prop where
  strings : ∀ t w, Item.token t w ∈ g → t.kind = .string → ∀ c ∈ t.text, flat c = c
  comments : ∀ pre body post, g = pre ++ .comment body :: post →
    tokensOf pre ≠ [] ∧ tokensOf post = []

theorem mem_of_group {it : Item} {g its : List Item} (hg : g ∈ its.splitOnP isSemicolon)
    (h : it ∈ g) : it ∈ its := by
  induction its generalizing g with
  | nil =>
    rw [List.splitOnP_nil, List.mem_singleton] at hg
    rwa [hg] at h
  | cons it' its ih =>
    cases hsemi : isSemicolon it' with
    | true =>
      rw [groups_semicolon hsemi] at hg
      rcases List.mem_cons.mp hg with rfl | hg
      · cases h
      · exact List.mem_cons_of_mem _ (ih hg h)
    | false =>
      obtain ⟨g', gs, hgs, hcons⟩ := groups_item hsemi its
      rw [hgs] at ih
      rw [hcons] at hg
      rcases List.mem_cons.mp hg with rfl | hg
      · rcases List.mem_cons.mp h with rfl | h
        · exact List.mem_cons_self ..
        · exact List.mem_cons_of_mem _ (ih (List.mem_cons_self ..) h)
      · exact List.mem_cons_of_mem _ (ih (List.mem_cons_of_mem _ hg) h)

theorem items_groups {its : List Item} {s : Text} (h : Items [] its s) :
    ∃ g gs tail, its.splitOnP isSemicolon = g :: gs ∧ s = textOf g ++ tail ∧
      (∀ c ∈ tail.head?, c = ';') ∧ Items [] g (textOf g) ∧ ∀ g' ∈ gs, Items [] g' (textOf g') := by
  induction h with
  | nil => exact ⟨[], [], [], by simp, rfl, by simp, .nil, by simp⟩
  | @space c its s hc _ ih =>
    obtain ⟨g, gs, tail, hgs, rfl, htail, hg, hall⟩ := ih
    obtain ⟨_, _, hgs', hcons⟩ := @groups_item (.space c) rfl its
    obtain ⟨rfl, rfl⟩ := List.cons.inj (hgs.symm.trans hgs')
    exact ⟨_, gs, tail, hcons, rfl, htail, .space hc hg, hall⟩
  | @comment body its s hbody hs _ ih =>
    obtain ⟨g, gs, tail, hgs, rfl, htail, hg, hall⟩ := ih
    obtain ⟨_, _, hgs', hcons⟩ := @groups_item (.comment body) rfl its
    obtain ⟨rfl, rfl⟩ := List.cons.inj (hgs.symm.trans hgs')
    refine ⟨_, gs, tail, hcons, by simp [textOf, Item.text], htail, .comment hbody ?_ hg, hall⟩
    intro c hc
    have hhead : (textOf g).head? = some c := hc
    apply hs
    show (textOf g ++ tail).head? = some c
    rw [List.head?_append, hhead]
    rfl
  | @token t w its s hlex _ ih =>
    obtain ⟨g, gs, tail, hgs, rfl, htail, hg, hall⟩ := ih
    by_cases hsemi : t.kind = .semicolon
    · obtain rfl := semicolon_text hlex hsemi
      have hcut := @groups_semicolon (.token t [';']) (by simpa [isSemicolon] using hsemi) its
      refine ⟨[], g :: gs, _, hgs ▸ hcut, rfl, ?_, .nil, ?_⟩
      · intro c hc
        cases hc
        rfl
      · intro g' hg'
        rcases List.mem_cons.mp hg' with rfl | hg'
        · exact hg
        · exact hall g' hg'
    · obtain ⟨_, _, hgs', hcons⟩ := @groups_item (.token t w) (by simpa [isSemicolon] using hsemi) its
      obtain ⟨rfl, rfl⟩ := List.cons.inj (hgs.symm.trans hgs')
      refine ⟨_, gs, tail, hcons, by simp [textOf, Item.text], htail, .token (hlex.congr ?_) hg, hall⟩
      -- a semicolon carries no token on
      refine (lead_append ?_).symm
      cases tail with
      | nil => rfl
      | cons c tail =>
        obtain rfl := htail c rfl
        rfl

/-! Pieces. -/

theorem flat_blanking : Blanking flat where
  keeps c hc := by
    unfold flat
    rw [if_neg]
    intro h
    simp only [Bool.or_eq_true, decide_eq_true_eq] at h
    rcases h with (rfl | rfl) | rfl <;> revert hc <;> decide
  blanks c := by
    unfold flat
    split
    · exact .inr rfl
    · exact .inl rfl

theorem isSpace_flat (c : Char) : isSpace (flat c) = isSpace c := by
  unfold flat
  split
  · rename_i h
    simp only [Bool.or_eq_true, decide_eq_true_eq] at h
    rcases h with (rfl | rfl) | rfl <;> rfl
  · rfl

theorem trimSql_map (u : Text) : (trimSql u).map flat = trimSql (u.map flat) := by
  have hspace : isSpace ∘ flat = isSpace := funext isSpace_flat
  have hdrop : ∀ s : Text, (s.map flat).dropWhile isSpace = (s.dropWhile isSpace).map flat := by
    intro s
    rw [List.dropWhile_map, hspace]
  unfold trimSql List.rdropWhile
  rw [← List.map_reverse, hdrop, ← List.map_reverse, hdrop]

theorem tokens_dropWhile (s : Text) : tokens (s.dropWhile isSpace) = tokens s := by
  induction s with
  | nil => rfl
  | cons c s ih =>
    by_cases hc : isSpace c = true
    · rw [List.dropWhile_cons_of_pos hc, ih, tokens_space hc]
    · rw [List.dropWhile_cons_of_neg hc]

theorem rdropWhile_trimSql (u : Text) : (trimSql u).rdropWhile isSpace = trimSql u := by
  rw [List.rdropWhile_eq_self_iff]
  intro hne
  unfold trimSql at hne ⊢
  have hrest : u.rdropWhile isSpace ≠ [] := by
    intro h
    rw [h] at hne
    exact hne rfl
  rw [(List.dropWhile_suffix isSpace).getLast hne]
  exact List.rdropWhile_last_not isSpace u hrest

theorem tokens_flattenSql (u : Text) :
    tokens (flattenSql (trimSql u)) = tokens ((u.map flat).rdropWhile isSpace) := by
  unfold flattenSql
  rw [trimSql_map]
  show tokens (((trimSql (u.map flat)).rdropWhile isSpace).dropWhile isSpace) = _
  rw [rdropWhile_trimSql, tokens_dropWhile]
  exact tokens_dropWhile _

def flatTokens : List Item → List Token
  | [] => []
  | .space _ :: its => flatTokens its
  | .comment _ :: _ => []
  | .token t _ :: its => blankToken flat t :: flatTokens its

theorem rdropWhile_append {e : Char} (he : isSpace e = false) (w v : Text) :
    (w ++ [e] ++ v).rdropWhile isSpace = w ++ [e] ++ v.rdropWhile isSpace := by
  induction v using List.reverseRecOn with
  | nil => rw [List.append_nil, List.rdropWhile_concat_neg _ _ _ (by simp [he])]; simp
  | append_singleton v c ih =>
    rw [← List.append_assoc]
    by_cases hc : isSpace c = true
    · rw [List.rdropWhile_concat_pos _ _ _ hc, List.rdropWhile_concat_pos _ _ _ hc, ih]
    · rw [List.rdropWhile_concat_neg _ _ _ hc, List.rdropWhile_concat_neg _ _ _ hc,
        List.append_assoc (w ++ [e])]

theorem tokens_rdropWhile_cons {c : Char} (hc : isSpace c = true) (v : Text) :
    tokens ((c :: v).rdropWhile isSpace) = tokens (v.rdropWhile isSpace) := by
  induction v using List.reverseRecOn with
  | nil => simp [List.rdropWhile, hc]
  | append_singleton v d ih =>
    rw [← List.cons_append]
    by_cases hd : isSpace d = true
    · rw [List.rdropWhile_concat_pos _ _ _ hd, List.rdropWhile_concat_pos _ _ _ hd, ih]
    · rw [List.rdropWhile_concat_neg _ _ _ hd, List.rdropWhile_concat_neg _ _ _ hd, List.cons_append,
        tokens_space hc]

theorem lead_rdropWhile (v : Text) : lead (v.rdropWhile isSpace) = lead v := by
  induction v using List.reverseRecOn with
  | nil => rfl
  | append_singleton v c ih =>
    by_cases hc : isSpace c = true
    · rw [List.rdropWhile_concat_pos _ _ _ hc, ih, lead_append (lead_of_space hc [])]
    · rw [List.rdropWhile_concat_neg _ _ _ hc]

theorem tokens_dashes {z : Text} (hz : ∀ c ∈ z, inComment c = true) :
    tokens ('-' :: '-' :: z) = [⟨.eof, []⟩] := by
  have hskip : skipWs false ('-' :: '-' :: z) = skipWs false [] := by
    have hcomment := skipWs_comment hz []
    rw [List.append_nil] at hcomment
    rw [skipWs_dashes, hcomment]
    rfl
  exact tokens_congr hskip

theorem inComment_flat {c : Char} (hc : c ≠ nul) : inComment (flat c) = true := by
  unfold flat
  split
  · rfl
  · rename_i h
    simp only [Bool.or_eq_true, decide_eq_true_eq, not_or] at h
    simp [inComment, hc, h.1.1]

theorem tokens_flat {its : List Item} {u : Text} (h : Items [] its u) (hnul : nul ∉ u) :
    tokens ((u.map flat).rdropWhile isSpace) = flatTokens its ++ [⟨.eof, []⟩] := by
  induction h with
  | nil => rfl
  | @space c its s hc _ ih =>
    rw [List.map_cons, tokens_rdropWhile_cons (by rw [isSpace_flat, hc])]
    exact ih fun hs => hnul (List.mem_cons_of_mem _ hs)
  | @comment body its s hbody hs _ ih =>
    have hdashes : ('-' :: '-' :: (body ++ s)).map flat = ['-'] ++ ['-'] ++ (body ++ s).map flat := rfl
    rw [hdashes, rdropWhile_append rfl]
    apply tokens_dashes
    intro c hc
    obtain ⟨x, hx, rfl⟩ := List.mem_map.mp ((List.rdropWhile_prefix isSpace _).mem hc)
    apply inComment_flat
    rintro rfl
    exact hnul (List.mem_cons_of_mem _ (List.mem_cons_of_mem _ hx))
  | @token t w its s hlex _ ih =>
    have hrest := ih fun hs => hnul (List.mem_append_right _ hs)
    obtain ⟨w', e, hw, he⟩ := hlex.last
    have hlead : lead ((s.map flat).rdropWhile isSpace) = lead s := by
      rw [lead_rdropWhile, flat_blanking.lead_eq]
    have htoken := tokens_token (hlex.map flat_blanking hlead)
    have hmap : w.map flat = w'.map flat ++ [flat e] := by rw [hw, List.map_append, List.map_singleton]
    rw [hrest, hmap] at htoken
    rw [List.map_append, hmap, rdropWhile_append (by rw [isSpace_flat, he])]
    exact htoken

/-! The whole script. -/

theorem blankToken_eq_iff {t : Token} :
    blankToken flat t = t ↔ (t.kind = .string → ∀ c ∈ t.text, flat c = c) := by
  obtain ⟨k, text⟩ := t
  unfold blankToken
  by_cases hk : k = .string
  · subst hk
    rw [if_pos rfl, Token.mk.injEq]
    constructor
    · rintro ⟨-, hmap⟩ - c hc
      exact List.map_inj_left.mp (hmap.trans text.map_id.symm) c hc
    · exact fun h => ⟨rfl, map_eq_self (h rfl)⟩
  · simp [hk]

def CommentsLast (g : List Item) : Prop :=
  ∀ pre body post, g = pre ++ .comment body :: post → tokensOf post = []

theorem commentsLast_cons {it : Item} {g : List Item} : CommentsLast (it :: g) ↔
    (∀ body, it = .comment body → tokensOf g = []) ∧ CommentsLast g := by
  constructor
  · intro h
    refine ⟨fun body hit => h [] body g (by rw [hit]; rfl), fun pre body post hg => ?_⟩
    exact h (it :: pre) body post (by rw [hg]; rfl)
  · rintro ⟨hhead, h⟩ pre body post hg
    cases pre with
    | nil =>
      cases hg
      exact hhead body rfl
    | cons it' pre =>
      cases hg
      exact h pre body post rfl

theorem flatTokens_eq_iff {g : List Item} : flatTokens g = tokensOf g ↔
    (∀ t w, Item.token t w ∈ g → t.kind = .string → ∀ c ∈ t.text, flat c = c) ∧ CommentsLast g := by
  induction g with
  | nil => simp [flatTokens, tokensOf, CommentsLast]
  | cons it g ih =>
    rw [commentsLast_cons]
    cases it with
    | space c =>
      have htoks : tokensOf (.space c :: g) = tokensOf g := rfl
      rw [flatTokens, htoks, ih]
      simp
    | comment body =>
      have htoks : tokensOf (.comment body :: g) = tokensOf g := rfl
      rw [flatTokens, htoks]
      constructor
      · intro h
        -- A comment swallows what follows, so nothing may.
        have hnone : ∀ t w, Item.token t w ∉ g := fun t w hmem => by
          have := List.mem_filterMap.mpr ⟨_, hmem, (rfl : Item.token? (.token t w) = some t)⟩
          rw [tokensOf] at h
          rw [← h] at this
          cases this
        refine ⟨fun t w hmem => ?_, fun _ _ => h.symm, fun pre body' post hg => ?_⟩
        · rcases List.mem_cons.mp hmem with hmem | hmem
          · cases hmem
          · exact absurd hmem (hnone t w)
        · rw [hg] at h
          simp only [tokensOf, List.filterMap_append, List.filterMap_cons, Item.token?] at h
          exact (List.append_eq_nil_iff.mp h.symm).2
      · rintro ⟨-, hlast, -⟩
        exact (hlast body rfl).symm
    | token t w =>
      have htoks : tokensOf (.token t w :: g) = t :: tokensOf g := rfl
      rw [flatTokens, htoks, List.cons.injEq, blankToken_eq_iff, ih]
      constructor
      · rintro ⟨ht, hg, hlast⟩
        refine ⟨fun t' w' hmem => ?_, nofun, hlast⟩
        rcases List.mem_cons.mp hmem with hmem | hmem
        · cases hmem
          exact ht
        · exact hg t' w' hmem
      · rintro ⟨hg, -, hlast⟩
        exact ⟨hg t w (List.mem_cons_self ..), fun t' w' hmem => hg t' w' (List.mem_cons_of_mem _ hmem),
          hlast⟩

theorem tokensOf_append (its its' : List Item) :
    tokensOf (its ++ its') = tokensOf its ++ tokensOf its' := List.filterMap_append

theorem mem_tokensOf {t : Token} {w : Text} {g : List Item} (h : Item.token t w ∈ g) :
    t ∈ tokensOf g := List.mem_filterMap.mpr ⟨_, h, rfl⟩

def IsBlank (g : List Item) : Prop := tokensOf g = [] ∧ ∀ body, Item.comment body ∉ g

theorem flatTokens_of_nil {g : List Item} (h : tokensOf g = []) : flatTokens g = tokensOf g := by
  apply flatTokens_eq_iff.mpr
  constructor
  · intro t w hmem
    have ht := mem_tokensOf hmem
    rw [h] at ht
    cases ht
  · rintro pre body post rfl
    rw [tokensOf_append] at h
    exact (List.append_eq_nil_iff.mp h).2

theorem tame_iff {g : List Item} :
    Tame g ↔ flatTokens g = tokensOf g ∧ (tokensOf g = [] → IsBlank g) := by
  rw [flatTokens_eq_iff]
  constructor
  · rintro ⟨hstrings, hcomments⟩
    refine ⟨⟨hstrings, fun pre body post hg => (hcomments pre body post hg).2⟩, ?_⟩
    refine fun hnil => ⟨hnil, fun body hbody => ?_⟩
    obtain ⟨pre, post, rfl⟩ := List.append_of_mem hbody
    rw [tokensOf_append] at hnil
    exact (hcomments pre body post rfl).1 (List.append_eq_nil_iff.mp hnil).1
  · rintro ⟨⟨hstrings, hlast⟩, hempty⟩
    refine ⟨hstrings, fun pre body post hg => ⟨fun hpre => ?_, hlast pre body post hg⟩⟩
    have hnil : tokensOf g = [] := by
      rw [hg, tokensOf_append, hpre]
      exact hlast pre body post hg
    apply (hempty hnil).2 body
    rw [hg]
    simp

theorem trimSql_items {g : List Item} {u : Text} (h : Items [] g u) : trimSql u = [] ↔ IsBlank g := by
  rw [trimSql_eq_nil]
  unfold IsBlank
  induction h with
  | nil => simp [tokensOf]
  | @space c its s hc _ ih =>
    have htoks : tokensOf (.space c :: its) = tokensOf its := rfl
    rw [htoks]
    simpa [hc] using ih
  | @comment body its s hbody hs _ ih =>
    apply iff_of_false
    · intro hall
      cases hall '-' (List.mem_cons_self ..)
    · rintro ⟨-, hno⟩
      exact hno body (List.mem_cons_self ..)
  | @token t w its s hlex _ ih =>
    obtain ⟨w', e, rfl, he⟩ := hlex.last
    apply iff_of_false
    · intro hall
      have hspace := hall e (by simp)
      rw [he] at hspace
      cases hspace
    · rintro ⟨hnil, -⟩
      cases hnil

theorem keep_tokens {g : List Item} (h : Items [] g (textOf g)) (hnul : nul ∉ textOf g) :
    (IsBlank g → (keep (textOf g)).map (fun piece => tokens (flattenSql piece)) = []) ∧
    (¬IsBlank g → (keep (textOf g)).map (fun piece => tokens (flattenSql piece)) =
      [flatTokens g ++ [⟨.eof, []⟩]]) := by
  rw [keep_eq, ← trimSql_items h]
  constructor
  · intro hnil
    rw [if_pos hnil]
    rfl
  · intro hne
    rw [if_neg hne, List.map_singleton, tokens_flattenSql, tokens_flat h hnul]

/-- The groups are sent as what they are exactly if they are tame. -/
theorem sent_iff {gs : List (List Item)}
    (hgs : ∀ g ∈ gs, Items [] g (textOf g) ∧ nul ∉ textOf g) :
    ((gs.map textOf).flatMap keep).map (fun piece => tokens (flattenSql piece)) =
      ((gs.map tokensOf).filter (· ≠ [])).map (· ++ [⟨.eof, []⟩]) ↔ ∀ g ∈ gs, Tame g := by
  induction gs with
  | nil => simp
  | cons g gs ih =>
    obtain ⟨⟨hitems, hnul⟩, hrest⟩ := List.forall_mem_cons.mp hgs
    obtain ⟨hempty, hsent⟩ := keep_tokens hitems hnul
    rw [List.forall_mem_cons, ← ih hrest, tame_iff]
    simp only [List.map_cons, List.flatMap_cons, List.map_append]
    by_cases hnil : tokensOf g = []
    · rw [List.filter_cons_of_neg (by simp [hnil])]
      by_cases he : IsBlank g
      · rw [hempty he, List.nil_append]
        simp [he, flatTokens_of_nil hnil]
      · rw [hsent he]
        apply iff_of_false
        · intro heq
          -- the piece without tokens is not wanted
          have hmem : [⟨.eof, []⟩] ∈ ((gs.map tokensOf).filter (· ≠ [])).map
              (· ++ [(⟨.eof, []⟩ : Token)]) := by
            rw [← heq, flatTokens_of_nil hnil, hnil]
            simp
          obtain ⟨ts, hts, heof⟩ := List.mem_map.mp hmem
          have hne := (List.mem_filter.mp hts).2
          cases ts with
          | nil => simp at hne
          | cons t ts => simp at heof
        · rintro ⟨⟨-, hno⟩, -⟩
          exact he (hno hnil)
    · rw [List.filter_cons_of_pos (by simp [hnil]), hsent fun he => hnil he.1]
      simp [hnil]

theorem tokensOf_groups (its : List Item) :
    (tokensOf its).splitOnP (fun t => t.kind = .semicolon) =
      (its.splitOnP isSemicolon).map tokensOf := by
  induction its with
  | nil => rfl
  | cons it its ih =>
    cases it with
    | space c =>
      obtain ⟨g, gs, hgs, hcons⟩ := @groups_item (.space c) rfl its
      rw [hcons]
      rw [hgs] at ih
      exact ih
    | comment body =>
      obtain ⟨g, gs, hgs, hcons⟩ := @groups_item (.comment body) rfl its
      rw [hcons]
      rw [hgs] at ih
      exact ih
    | token t w =>
      have htoks : tokensOf (.token t w :: its) = t :: tokensOf its := rfl
      rw [htoks, List.splitOnP_cons_eq_if_modifyHead, ih]
      by_cases hsemi : t.kind = .semicolon
      · rw [groups_semicolon (by simpa [isSemicolon] using hsemi), if_pos (by simpa using hsemi)]
        rfl
      · obtain ⟨g, gs, hgs, hcons⟩ := @groups_item (.token t w) (by simpa [isSemicolon] using hsemi) its
        rw [if_neg (by simpa using hsemi), hgs, hcons]
        rfl

theorem closed_lexeme {c : Char} {x r : Text} {t : Token} (h : Lexeme r t (c :: x))
    (hquote : c ≠ quote ∨ ((x ++ r).dropWhile inString).head? = some quote) :
    t.kind = .string → (c :: x).getLast? = some quote := by
  intro ht
  cases h with
  | semicolon => cases ht
  | solid hkind _ _ => exact absurd ht hkind.2.1
  | @string y e hy he =>
    have hhead := hquote.resolve_left (not_not_intro rfl)
    rw [List.append_assoc, List.dropWhile_append_of_pos hy, List.singleton_append,
      List.dropWhile_cons_of_neg (by simp [he])] at hhead
    rw [← List.cons_append, List.getLast?_concat]
    exact hhead

theorem items_of_legible {n : Nat} {s : Text} (h : legibleUpTo n s = true) :
    ∃ its, Items [] its s ∧ ClosedStrings its := by
  induction n generalizing s with
  | zero => cases h
  | succ n ih =>
    obtain ⟨body, m, its, rfl, -, hbody, -, hits, htoks⟩ := items_of_skipWs false s
    obtain rfl := hbody rfl
    rw [List.nil_append] at h hits ⊢
    have hnone : ∀ t w, Item.token t w ∉ its := fun t w hmem => by
      have ht := mem_tokensOf hmem
      rw [htoks] at ht
      cases ht
    unfold legibleUpTo at h
    cases hm : skipWs false m with
    | nil =>
      rw [hm] at hits
      exact ⟨its, hits, fun t w hmem => absurd hmem (hnone t w)⟩
    | cons c s' =>
      rw [hm] at h hits
      simp only [Bool.and_eq_true, Bool.or_eq_true, decide_eq_true_eq] at h
      obtain ⟨⟨hkind, hquote⟩, hrest⟩ := h
      obtain ⟨its', hits', hclosed⟩ := ih hrest
      have hdrop : c = quote → s'.dropWhile inString ≠ [] := fun hc hnil => by
        have hhead := hquote.resolve_left (not_not_intro hc)
        rw [hnil] at hhead
        cases hhead
      obtain ⟨x, hx, hlex⟩ := scan_finds c s' hkind hdrop
      rw [hx] at hquote
      have htoken := Items.token hlex hits'
      rw [List.cons_append, ← hx] at htoken
      refine ⟨its ++ .token (scan c s').1 (c :: x) :: its', hits.append htoken, ?_⟩
      intro t w hmem
      rcases List.mem_append.mp hmem with hmem | hmem
      · exact absurd hmem (hnone t w)
      · rcases List.mem_cons.mp hmem with hmem | hmem
        · cases hmem
          exact closed_lexeme hlex hquote
        · exact hclosed t w hmem

theorem nul_notMem {its : List Item} {s : Text} (h : Items [] its s) (hclosed : ClosedStrings its) :
    nul ∉ s := by
  induction h with
  | nil => simp
  | @space c its s hc _ ih =>
    rw [List.mem_cons, not_or]
    refine ⟨?_, ih hclosed.of_cons⟩
    rintro rfl
    cases hc
  | @comment body its s hbody _ _ ih =>
    have hno : nul ∉ body := fun hmem => by cases hbody nul hmem
    have hrest := ih hclosed.of_cons
    simp only [List.mem_cons, List.mem_append, not_or]
    exact ⟨by decide, by decide, hno, hrest⟩
  | @token t w its s hlex _ ih =>
    rw [List.mem_append, not_or]
    refine ⟨?_, ih hclosed.of_cons⟩
    have hlast := hclosed t w (List.mem_cons_self ..)
    cases hlex with
    | semicolon => decide
    | solid _ hsolid _ => exact fun hmem => by cases hsolid nul hmem
    | @string y e hy he =>
      obtain rfl : e = quote := by
        have hend := hlast rfl
        rw [← List.cons_append, List.getLast?_concat] at hend
        exact Option.some.inj hend
      have hno : nul ∉ y := fun hmem => by cases hy nul hmem
      simp only [List.mem_cons, List.mem_append, List.not_mem_nil, not_or]
      exact ⟨by decide, hno, by decide, not_false⟩

/-! A last comment that is cut short. -/

theorem items_split {r s : Text} {its its' : List Item} (h : Items r (its ++ its') s) :
    ∃ m, Items m its s ∧ Items r its' m := by
  induction its generalizing s with
  | nil => exact ⟨s, .nil, h⟩
  | cons it its ih =>
    cases h with
    | space hc hrest =>
      obtain ⟨m, hm, hr⟩ := ih hrest
      exact ⟨m, .space hc hm, hr⟩
    | comment hbody hs hrest =>
      obtain ⟨m, hm, hr⟩ := ih hrest
      exact ⟨m, .comment hbody hs hm, hr⟩
    | token hlex hrest =>
      obtain ⟨m, hm, hr⟩ := ih hrest
      exact ⟨m, .token hlex hm, hr⟩

/-- What stands far behind the items makes no difference to them. -/
theorem items_front {r tail s : Text} {its : List Item} (h : Items (r ++ tail) its s)
    (htail : lead tail = []) : Items r its (textOf its ++ r) := by
  induction h with
  | nil => exact .nil
  | space hc _ ih => exact .space hc ih
  | @comment body its s hbody hs hrest ih =>
    have hfront : ∀ c ∈ (textOf its ++ r).head?, inComment c = false := by
      intro c hc
      apply hs
      rw [hrest.text_eq, ← List.append_assoc, List.head?_append, hc]
      rfl
    have hitems := Items.comment hbody hfront ih
    simpa [textOf, Item.text] using hitems
  | @token t w its s hlex hrest ih =>
    have hlead : lead (textOf its ++ r) = lead s := by
      rw [hrest.text_eq, ← List.append_assoc, lead_append htail]
    have hitems := Items.token (hlex.congr hlead) ih
    simpa [textOf, Item.text] using hitems

theorem cut_items {its its' : List Item} {s : Text} (h : Cut its its') (hits : Items [] its s) :
    Items [] its' (textOf its') := by
  cases h with
  | whole =>
    have heq := hits.text_eq
    rw [List.append_nil] at heq
    rwa [← heq]
  | @short pre y z post hz hpost =>
    obtain ⟨m, hpre, hrest⟩ := items_split hits
    cases hrest with
    | @comment body its s hbody hs hrest =>
      obtain ⟨u, rfl, hu⟩ := items_blank hrest hpost
      have hlast : Items [] [.comment y] ('-' :: '-' :: (y ++ [])) :=
        .comment (fun c hc => hbody c (List.mem_append_left _ hc)) (by simp) .nil
      have htail : lead (z ++ (u ++ [])) = [] := by
        cases z with
        | cons c z =>
          obtain rfl := hz c rfl
          rfl
        | nil =>
          cases u with
          | nil => rfl
          | cons c u => exact lead_of_space (hu c (List.mem_cons_self ..)) _
      have hassoc : '-' :: '-' :: (y ++ z ++ (u ++ [])) =
          ('-' :: '-' :: (y ++ [])) ++ (z ++ (u ++ [])) := by
        simp
      rw [hassoc] at hpre
      have hfront := (items_front hpre htail).append hlast
      simpa [textOf, Item.text] using hfront

theorem tokensOf_blank {post : List Item} (h : post.all isBlankItem = true) : tokensOf post = [] := by
  apply List.filterMap_eq_nil_iff.mpr
  intro it hit
  have hblank := List.all_eq_true.mp h it hit
  cases it with
  | space => rfl
  | comment | token => cases hblank

theorem cut_tokens {its its' : List Item} (h : Cut its its') : tokensOf its' = tokensOf its := by
  cases h with
  | whole => rfl
  | @short pre y z post hz hpost =>
    have hnone := tokensOf_blank hpost
    rw [tokensOf_append, tokensOf_append]
    exact congrArg (tokensOf pre ++ ·) hnone.symm

theorem cut_closed {its its' : List Item} (h : Cut its its') (hclosed : ClosedStrings its) :
    ClosedStrings its' := by
  cases h with
  | whole => exact hclosed
  | short pre hz hpost =>
    intro t w hmem
    refine hclosed t w (List.mem_append_left _ ?_)
    simpa using hmem

theorem tame_last {g post : List Item} {body : Text} (hpost : post.all isBlankItem = true) :
    Tame (g ++ .comment body :: post) ↔ Tame g ∧ tokensOf g ≠ [] := by
  have hnone : tokensOf (.comment body :: post) = [] := (tokensOf_blank hpost : tokensOf post = [])
  constructor
  · intro h
    refine ⟨⟨fun t w hmem => h.strings t w (List.mem_append_left _ hmem), fun pre b rest hg => ?_⟩,
      (h.comments g body post rfl).1⟩
    obtain ⟨hpre, hrest⟩ := h.comments pre b (rest ++ .comment body :: post) (by simp [hg])
    rw [tokensOf_append] at hrest
    exact ⟨hpre, (List.append_eq_nil_iff.mp hrest).1⟩
  · rintro ⟨h, hne⟩
    have hitem : ∀ {it}, it ∈ post → isBlankItem it = true := fun hmem =>
      List.all_eq_true.mp hpost _ hmem
    constructor
    · intro t w hmem
      rcases List.mem_append.mp hmem with hmem | hmem
      · exact h.strings t w hmem
      · rcases List.mem_cons.mp hmem with hmem | hmem
        · cases hmem
        · cases hitem hmem
    · intro pre b rest hg
      rcases List.append_eq_append_iff.mp hg with ⟨mid, rfl, hmid⟩ | ⟨mid, rfl, hmid⟩
      · cases mid with
        | nil =>
          obtain ⟨-, rfl⟩ := List.cons.inj hmid
          rw [List.append_nil]
          exact ⟨hne, tokensOf_blank hpost⟩
        | cons it mid =>
          obtain ⟨-, rfl⟩ := List.cons.inj hmid
          have hin : Item.comment b ∈ mid ++ .comment b :: rest := List.mem_append_cons_self
          cases hitem hin
      · cases mid with
        | nil =>
          obtain ⟨-, rfl⟩ := List.cons.inj hmid
          rw [List.append_nil] at hne
          exact ⟨hne, tokensOf_blank hpost⟩
        | cons it mid =>
          obtain ⟨rfl, rfl⟩ := List.cons.inj hmid
          obtain ⟨hpre, hrest⟩ := h.comments pre b mid rfl
          refine ⟨hpre, (tokensOf_append mid _).trans ?_⟩
          rw [hrest, hnone]
          rfl

theorem groups_append (its : List Item) : ∃ gs g, ∀ rest : List Item,
    (∀ it ∈ rest, isSemicolon it = false) →
      (its ++ rest).splitOnP isSemicolon = gs ++ [g ++ rest] := by
  induction its with
  | nil => exact ⟨[], [], fun rest h => List.splitOnP_eq_singleton h⟩
  | cons it its ih =>
    obtain ⟨gs, g, hall⟩ := ih
    cases hsemi : isSemicolon it with
    | true =>
      refine ⟨[] :: gs, g, fun rest h => ?_⟩
      rw [List.cons_append, groups_semicolon hsemi, hall rest h]
      rfl
    | false =>
      cases gs with
      | nil =>
        refine ⟨[], it :: g, fun rest h => ?_⟩
        rw [List.cons_append, List.splitOnP_cons_eq_if_modifyHead, hsemi, hall rest h]
        rfl
      | cons g' gs =>
        refine ⟨(it :: g') :: gs, g, fun rest h => ?_⟩
        rw [List.cons_append, List.splitOnP_cons_eq_if_modifyHead, hsemi, hall rest h]
        rfl

theorem cut_tame {its its' : List Item} (h : Cut its its') :
    (∀ g ∈ its'.splitOnP isSemicolon, Tame g) ↔ ∀ g ∈ its.splitOnP isSemicolon, Tame g := by
  cases h with
  | whole => rfl
  | @short pre y z post hz hpost =>
    obtain ⟨gs, g, hall⟩ := groups_append pre
    have hsemi : ∀ body, ∀ it ∈ Item.comment body :: post, isSemicolon it = false := by
      intro body it hit
      rcases List.mem_cons.mp hit with rfl | hit
      · rfl
      · have hblank := List.all_eq_true.mp hpost it hit
        cases it with
        | space => rfl
        | comment | token => cases hblank
    rw [hall _ (hsemi (y ++ z)), hall [.comment y] (by simp [isSemicolon])]
    simp only [List.forall_mem_append, List.forall_mem_singleton]
    have hnone : ([] : List Item).all isBlankItem = true := rfl
    rw [tame_last hpost, tame_last hnone]

/-- The batch client sends what the script says exactly if no string has a tab or a line break and
each comment stands at the end of a statement. This is for comments that the splitter passes over,
the last one of the script apart, which may be odd. -/
theorem sendsScript_iff {script : Text} {its : List Item} (h : Legible script)
    (hits : Items [] its script) (hquiet : quietComments its = true) :
    SendsScript script ↔ ∀ g ∈ its.splitOnP isSemicolon, Tame g := by
  obtain ⟨its₀, hits₀, hclosed⟩ := items_of_legible h
  obtain rfl := hits.unique hits₀
  obtain ⟨its', hcut, hsplit⟩ := splitFrom_items hits hclosed hquiet []
  have hits' := cut_items hcut hits
  have hgroups : ∀ g ∈ its'.splitOnP isSemicolon, Items [] g (textOf g) ∧ nul ∉ textOf g := by
    obtain ⟨g₀, gs, tail, hgs, -, -, hg₀, hall⟩ := items_groups hits'
    intro g hg
    constructor
    · rw [hgs] at hg
      rcases List.mem_cons.mp hg with rfl | hg
      · exact hg₀
      · exact hall g hg
    · intro hnul
      apply nul_notMem hits' (cut_closed hcut hclosed)
      obtain ⟨it, hit, hc⟩ := List.mem_flatMap.mp hnul
      exact List.mem_flatMap.mpr ⟨it, mem_of_group hg hit, hc⟩
  have hpieces : splitSqlStatements script =
      ((its'.splitOnP isSemicolon).map textOf).flatMap keep := by
    unfold splitSqlStatements
    rw [hsplit]
    unfold pieces
    cases its'.splitOnP isSemicolon <;> rfl
  have htokens : (tokens script).dropLast = tokensOf its' := by
    rw [hits.tokens, cut_tokens hcut]
    exact List.dropLast_concat
  rw [← cut_tame hcut, ← sent_iff hgroups]
  unfold SendsScript statements
  rw [hpieces, htokens, tokensOf_groups]

def pairScript : Text := "a \"x;y\" -- \"c;\"\n; b -- 3\" d;".toList

def firstOfPair : List Item :=
  [.token ⟨.ident, ['a']⟩ ['a'], .space ' ', .token ⟨.string, "x;y".toList⟩ "\"x;y\"".toList,
    .space ' ']

def secondOfPair : List Item := [.space ' ', .token ⟨.ident, ['b']⟩ ['b'], .space ' ']

def pairItems : List Item :=
  firstOfPair ++ .comment " \"c;\"".toList :: .space '\n' :: .token ⟨.semicolon, [';']⟩ [';'] ::
    (secondOfPair ++ [.comment " 3\" d;".toList])

theorem items_pair : Items [] pairItems pairScript := by
  have hword : ∀ c ∈ ([] : Text), isIdentChar c = true := by simp
  have ha : Spelling ⟨.ident, ['a']⟩ ['a'] := .name rfl hword (by decide)
  have hs : Spelling ⟨.string, "x;y".toList⟩ "\"x;y\"".toList := .string (by simp [quote, nul])
  have hb : Spelling ⟨.ident, ['b']⟩ ['b'] := .name rfl hword (by decide)
  have hend : ∀ c ∈ ([] : Text).head?, inComment c = false := by simp
  have hlast : Items [] (secondOfPair ++ [.comment " 3\" d;".toList]) " b -- 3\" d;".toList :=
    .space rfl (.token (hb.lexeme rfl) (.space rfl (.comment (List.all_eq_true.mp rfl) hend .nil)))
  have hline : ∀ s : Text, ∀ c ∈ ('\n' :: s).head?, inComment c = false := by
    rintro s c hc
    cases hc
    rfl
  exact .token (ha.lexeme rfl) (.space rfl (.token (hs.lexeme rfl) (.space rfl
    (.comment (List.all_eq_true.mp rfl) (hline _) (.space rfl (.token .semicolon hlast))))))

theorem sendsScript_iff_pair : SendsScript pairScript := by
  refine (sendsScript_iff (by unfold Legible; decide +kernel) items_pair (by decide)).mpr ?_
  have hplain : ∀ g : List Item, (∀ body, .comment body ∉ g) →
      ((tokensOf g).all fun t => t.text.map flat = t.text) = true → Tame g := by
    intro g hno hall
    refine ⟨fun t w hmem _ c hc => ?_, fun pre body post hg => ?_⟩
    · have hflat := List.all_eq_true.mp hall t (mem_tokensOf hmem)
      exact List.map_inj_left.mp ((of_decide_eq_true hflat).trans (List.map_id _).symm) c hc
    · exact absurd (hg ▸ List.mem_append_cons_self) (hno body)
  have hfirst : Tame (firstOfPair ++ [.comment " \"c;\"".toList, .space '\n']) :=
    (tame_last rfl).mpr ⟨hplain _ (by simp [firstOfPair]) (by decide), List.cons_ne_nil _ _⟩
  have hsecond : Tame (secondOfPair ++ [.comment " 3\" d;".toList]) :=
    (tame_last rfl).mpr ⟨hplain _ (by simp [secondOfPair]) (by decide), List.cons_ne_nil _ _⟩
  exact List.forall_mem_cons.mpr ⟨hfirst, List.forall_mem_singleton.mpr hsecond⟩

/-- The newline behind a comment is sent as a space, and the comment then takes the rest along. -/
theorem not_sendsScript : ¬∀ script, Legible script → SendsScript script := by
  intro h
  have hsends := h "a -- b\nc".toList (by unfold Legible; decide +kernel)
  revert hsends
  unfold SendsScript
  decide +kernel

end Dbms.Client
