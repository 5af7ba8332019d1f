import Dbms.Client.Batch
import Dbms.Sql.Items

/-! Where the batch client cuts a script. It knows quotes but no comments: what it makes of these
depends on the quotes and the semicolons in them. -/

open Dbms.Core Dbms.Sql Dbms.Sql.Lexer

namespace Dbms.Client

/-! What is kept of a piece. -/

theorem trimSql_eq_nil {u : Text} : trimSql u = [] ↔ ∀ c ∈ u, isSpace c = true := by
  unfold trimSql
  rw [List.dropWhile_eq_nil_iff]
  constructor
  · intro h
    apply List.rdropWhile_eq_nil_iff.mp
    by_contra hne
    exact List.rdropWhile_last_not isSpace u hne (h _ (List.getLast_mem hne))
  · intro h
    rw [List.rdropWhile_eq_nil_iff.mpr h]
    simp

theorem trimSql_head {u r : Text} {c : Char} (h : trimSql u = c :: r) : isSpace c = false := by
  unfold trimSql at h
  have hhead := List.dropWhile_get_zero_not isSpace (u.rdropWhile isSpace) (by rw [h]; simp)
  simpa [h] using hhead

theorem commentLines_true (lines : List Text) : commentLines lines true = false := by
  induction lines with
  | nil => rfl
  | cons line lines ih =>
    unfold commentLines
    dsimp only
    split
    · exact ih
    · split
      · exact ih
      · rfl

theorem isCommentOnly_cons {c : Char} {s : Text} (hc : isSpace c = false) :
    isCommentOnly (c :: s) = false := by
  have hline : c ≠ '\n' := by
    rintro rfl
    cases hc
  obtain ⟨g, gs, hgs⟩ := List.exists_cons_of_ne_nil (List.splitOnP_ne_nil (· == '\n') s)
  have hcons : (c :: s).splitOn '\n' = (c :: g) :: gs := by
    rw [List.splitOn_eq_splitOnP, List.splitOnP_cons_eq_if_modifyHead, hgs]
    simp [hline]
  have hne : trimSql (c :: g) ≠ [] := fun h => by
    have hspace := trimSql_eq_nil.mp h c (List.mem_cons_self ..)
    rw [hc] at hspace
    cases hspace
  unfold isCommentOnly
  rw [hcons, commentLines]
  rw [if_neg hne, commentLines_true]
  split <;> rfl

theorem keep_eq (cur : Text) : keep cur = if trimSql cur = [] then [] else [trimSql cur] := by
  unfold keep
  cases h : trimSql cur with
  | nil => simp
  | cons c r => simp [isCommentOnly_cons (trimSql_head h)]

/-! Up to a semicolon. -/

/-- Read from inside quotes or not, the text ends outside of quotes and has no semicolon there. -/
def quiet : Bool → Text → Bool
  | inStr, [] => !inStr
  | inStr, c :: s =>
    if c = quote then quiet (!inStr) s
    else if c = ';' ∧ inStr = false then false
    else quiet inStr s

def isSemicolon : Item → Bool
  | .token t _ => t.kind = .semicolon
  | _ => false

theorem splitFrom_quiet {x : Text} {b : Bool} (h : quiet b x = true) (cur s : Text) :
    splitFrom cur b (x ++ s) = splitFrom (cur ++ x) false s := by
  induction x generalizing b cur with
  | nil =>
    obtain rfl : b = false := by simpa [quiet] using h
    rw [List.append_nil, List.nil_append]
  | cons c x ih =>
    have hassoc : cur ++ c :: x = cur ++ [c] ++ x := by simp
    rw [List.cons_append, hassoc, splitFrom]
    unfold quiet at h
    by_cases hquote : c = quote
    · rw [if_pos hquote] at h ⊢
      exact ih h _
    · rw [if_neg hquote] at h ⊢
      by_cases hsemi : c = ';' ∧ b = false
      · rw [if_pos hsemi] at h
        cases h
      · rw [if_neg hsemi] at h ⊢
        exact ih h _

theorem quiet_of_forall {x : Text} (h : ∀ c ∈ x, c ≠ quote ∧ c ≠ ';') : quiet false x = true := by
  induction x with
  | nil => rfl
  | cons c x ih =>
    obtain ⟨hquote, hsemi⟩ := h c (List.mem_cons_self ..)
    unfold quiet
    rw [if_neg hquote, if_neg fun hc => hsemi hc.1]
    exact ih fun y hy => h y (List.mem_cons_of_mem _ hy)

theorem quiet_string {y : Text} (h : ∀ c ∈ y, inString c = true) :
    quiet false (quote :: (y ++ [quote])) = true := by
  have hin : ∀ y : Text, (∀ c ∈ y, inString c = true) → quiet true (y ++ [quote]) = true := by
    intro y h
    induction y with
    | nil => rfl
    | cons c y ih =>
      have hc : c ≠ quote := by
        have hin := h c (List.mem_cons_self ..)
        rintro rfl
        cases hin
      rw [List.cons_append]
      unfold quiet
      rw [if_neg hc, if_neg (by simp)]
      exact ih fun x hx => h x (List.mem_cons_of_mem _ hx)
  exact hin y h

def ClosedStrings (its : List Item) : Prop :=
  ∀ t w, Item.token t w ∈ its → t.kind = .string → w.getLast? = some quote

theorem ClosedStrings.of_cons {it : Item} {its : List Item} (h : ClosedStrings (it :: its)) :
    ClosedStrings its := fun t w hw => h t w (List.mem_cons_of_mem _ hw)

theorem ne_of_isSolid {c : Char} (h : isSolid c = true) : c ≠ quote ∧ c ≠ ';' := by
  constructor
  · rintro rfl
    cases h
  · rintro rfl
    cases h

theorem quiet_lexeme {r w : Text} {t : Token} (h : Lexeme r t w) (ht : t.kind ≠ .semicolon)
    (hclosed : t.kind = .string → w.getLast? = some quote) : quiet false w = true := by
  cases h with
  | semicolon => exact absurd rfl ht
  | solid hkind hsolid hscan => exact quiet_of_forall fun c hc => ne_of_isSolid (hsolid c hc)
  | @string y e hy he =>
    obtain rfl : e = quote := by
      have hlast := hclosed rfl
      rw [← List.cons_append, List.getLast?_concat] at hlast
      exact Option.some.inj hlast
    exact quiet_string hy

theorem semicolon_text {r w : Text} {t : Token} (h : Lexeme r t w) (ht : t.kind = .semicolon) :
    w = [';'] := by
  cases h with
  | semicolon => rfl
  | solid hkind _ _ => exact absurd ht hkind.2.2
  | string _ _ => cases ht

theorem groups_item {it : Item} (h : isSemicolon it = false) (its : List Item) :
    ∃ g gs, its.splitOnP isSemicolon = g :: gs ∧
      (it :: its).splitOnP isSemicolon = (it :: g) :: gs := by
  obtain ⟨g, gs, hgs⟩ := List.exists_cons_of_ne_nil (List.splitOnP_ne_nil isSemicolon its)
  refine ⟨g, gs, hgs, ?_⟩
  rw [List.splitOnP_cons_eq_if_modifyHead, h, hgs]
  rfl

theorem groups_semicolon {it : Item} (h : isSemicolon it = true) (its : List Item) :
    (it :: its).splitOnP isSemicolon = [] :: its.splitOnP isSemicolon := by
  rw [List.splitOnP_cons_eq_if_modifyHead, if_pos h]

theorem textOf_cons (it : Item) (its : List Item) : textOf (it :: its) = it.text ++ textOf its := rfl

def pieces (cur : Text) (its : List Item) : List Text :=
  (((its.splitOnP isSemicolon).map textOf).modifyHead (cur ++ ·)).flatMap keep

theorem pieces_item {it : Item} (h : isSemicolon it = false) (cur : Text) (its : List Item) :
    pieces cur (it :: its) = pieces (cur ++ it.text) its := by
  obtain ⟨g, gs, hgs, hcons⟩ := groups_item h its
  unfold pieces
  rw [hgs, hcons]
  simp [textOf_cons]

/-! The end of a script. -/

/-- Read from inside quotes or not, the text has only blanks and semicolons behind the first semicolon
that stands outside of quotes. -/
def hushed : Bool → Text → Bool
  | _, [] => true
  | inStr, c :: s =>
    if c = quote then hushed (!inStr) s
    else if c = ';' ∧ inStr = false then s.all fun d => isSpace d || d = ';'
    else hushed inStr s

def isBlankItem : Item → Bool
  | .space _ => true
  | _ => false

/-- Each comment is quiet, unless it is the last one, with no token behind it, and hushed. -/
def quietComments : List Item → Bool
  | [] => true
  | .comment body :: its =>
    (quiet false body || hushed false body && its.all isBlankItem) && quietComments its
  | _ :: its => quietComments its

theorem quietComments_cons {it : Item} {its : List Item} (h : quietComments (it :: its) = true) :
    quietComments its = true := by
  cases it with
  | comment body => exact (Bool.and_eq_true_iff.mp h).2
  | space | token => exact h

theorem keep_concat {c : Char} (hc : isSpace c = true) (cur : Text) : keep (cur ++ [c]) = keep cur := by
  have htrim : trimSql (cur ++ [c]) = trimSql cur := by
    unfold trimSql
    rw [List.rdropWhile_concat_pos _ _ _ hc]
  rw [keep_eq, keep_eq, htrim]

theorem ne_of_isSpace {c : Char} (h : isSpace c = true) : c ≠ quote ∧ c ≠ ';' := by
  constructor
  · rintro rfl
    cases h
  · rintro rfl
    cases h

theorem splitFrom_spaces {u : Text} (h : ∀ c ∈ u, isSpace c = true) (b : Bool) (cur : Text) :
    splitFrom cur b u = keep cur := by
  induction u generalizing cur with
  | nil => rfl
  | cons c u ih =>
    obtain ⟨hc, hu⟩ := List.forall_mem_cons.mp h
    obtain ⟨hquote, hsemi⟩ := ne_of_isSpace hc
    rw [splitFrom, if_neg hquote, if_neg fun hcut => hsemi hcut.1, ih hu, keep_concat hc]

theorem splitFrom_semicolons {u cur : Text} (h : ∀ c ∈ u, isSpace c = true ∨ c = ';')
    (hcur : keep cur = []) : splitFrom cur false u = [] := by
  induction u generalizing cur with
  | nil => exact hcur
  | cons c u ih =>
    obtain ⟨hc, hu⟩ := List.forall_mem_cons.mp h
    rcases hc with hc | rfl
    · obtain ⟨hquote, hsemi⟩ := ne_of_isSpace hc
      rw [splitFrom, if_neg hquote, if_neg fun hcut => hsemi hcut.1]
      exact ih hu ((keep_concat hc cur).trans hcur)
    · rw [splitFrom, if_neg (by decide), if_pos ⟨rfl, rfl⟩, hcur]
      exact ih hu rfl

/-- A text that is hushed is cut once at most. -/
theorem splitFrom_hushed {x u : Text} {b : Bool} (h : hushed b x = true)
    (hu : ∀ c ∈ u, isSpace c = true) : ∃ y z, x = y ++ z ∧ (∀ c ∈ z.head?, c = ';') ∧
      ∀ cur, splitFrom cur b (x ++ u) = keep (cur ++ y) := by
  induction x generalizing b with
  | nil =>
    refine ⟨[], [], rfl, by simp, fun cur => ?_⟩
    rw [List.nil_append, List.append_nil]
    exact splitFrom_spaces hu b cur
  | cons c x ih =>
    unfold hushed at h
    by_cases hquote : c = quote
    · rw [if_pos hquote] at h
      obtain ⟨y, z, rfl, hz, hcut⟩ := ih h
      refine ⟨c :: y, z, rfl, hz, fun cur => ?_⟩
      rw [List.cons_append, splitFrom, if_pos hquote, hcut, List.append_assoc]
      rfl
    rw [if_neg hquote] at h
    by_cases hsemi : c = ';' ∧ b = false
    · rw [if_pos hsemi] at h
      obtain ⟨rfl, rfl⟩ := hsemi
      refine ⟨[], ';' :: x, rfl, by simp, fun cur => ?_⟩
      have hrest : ∀ d ∈ x ++ u, isSpace d = true ∨ d = ';' := by
        intro d hd
        rcases List.mem_append.mp hd with hd | hd
        · simpa using List.all_eq_true.mp h d hd
        · exact .inl (hu d hd)
      have hnothing : splitFrom [] false (x ++ u) = [] := splitFrom_semicolons hrest rfl
      rw [List.cons_append, splitFrom, if_neg hquote, if_pos ⟨rfl, rfl⟩, hnothing, List.append_nil,
        List.append_nil]
    · rw [if_neg hsemi] at h
      obtain ⟨y, z, rfl, hz, hcut⟩ := ih h
      refine ⟨c :: y, z, rfl, hz, fun cur => ?_⟩
      rw [List.cons_append, splitFrom, if_neg hquote, if_neg hsemi, hcut, List.append_assoc]
      rfl

/-- The items up to the last comment, which may be cut short in front of a semicolon. -/
inductive Cut : List Item → List Item → Prop where
  | whole (its : List Item) : Cut its its
  | short (pre : List Item) {y z : Text} {post : List Item} : (∀ c ∈ z.head?, c = ';') →
      post.all isBlankItem = true → Cut (pre ++ .comment (y ++ z) :: post) (pre ++ [.comment y])

theorem Cut.cons (it : Item) {its its' : List Item} (h : Cut its its') :
    Cut (it :: its) (it :: its') := by
  cases h with
  | whole => exact .whole _
  | short pre hz hpost => exact .short (it :: pre) hz hpost

theorem items_blank {r s : Text} {its : List Item} (h : Items r its s)
    (hblank : its.all isBlankItem = true) : ∃ u, s = u ++ r ∧ ∀ c ∈ u, isSpace c = true := by
  induction h with
  | nil => exact ⟨[], rfl, by simp⟩
  | @space c its s hc _ ih =>
    obtain ⟨u, rfl, hu⟩ := ih hblank
    exact ⟨c :: u, rfl, List.forall_mem_cons.mpr ⟨hc, hu⟩⟩
  | comment _ _ _ _ | token _ _ _ => cases hblank

theorem splitFrom_items {its : List Item} {s : Text} (h : Items [] its s)
    (hclosed : ClosedStrings its) (hquiet : quietComments its = true) (cur : Text) :
    ∃ its', Cut its its' ∧ splitFrom cur false s = pieces cur its' := by
  induction h generalizing cur with
  | nil => exact ⟨[], .whole _, by simp [splitFrom, pieces, textOf]⟩
  | @space c its s hc _ ih =>
    have hchar : ∀ d ∈ [c], d ≠ quote ∧ d ≠ ';' := by simpa using ne_of_isSpace hc
    obtain ⟨its', hcut, hrest⟩ := ih hclosed.of_cons (quietComments_cons hquiet) (cur ++ [c])
    refine ⟨.space c :: its', hcut.cons _, ?_⟩
    rw [pieces_item rfl, ← List.singleton_append, splitFrom_quiet (quiet_of_forall hchar), hrest]
    rfl
  | @comment body its s _ _ hs ih =>
    have hcomment := (Bool.and_eq_true_iff.mp hquiet).1
    rw [Bool.or_eq_true, Bool.and_eq_true] at hcomment
    rcases hcomment with hbody | ⟨hbody, hpost⟩
    · have hdashes : quiet false ('-' :: '-' :: body) = true := hbody
      obtain ⟨its', hcut, hrest⟩ :=
        ih hclosed.of_cons (quietComments_cons hquiet) (cur ++ '-' :: '-' :: body)
      refine ⟨.comment body :: its', hcut.cons _, ?_⟩
      rw [pieces_item rfl, ← List.cons_append, ← List.cons_append, splitFrom_quiet hdashes, hrest]
      rfl
    -- The last comment: it may be cut at a semicolon, behind which nothing is sent.
    · obtain ⟨u, rfl, hu⟩ := items_blank hs hpost
      obtain ⟨y, z, rfl, hz, hcut⟩ := splitFrom_hushed hbody hu
      refine ⟨[.comment y], .short [] hz hpost, ?_⟩
      rw [List.append_nil, splitFrom, if_neg (by decide), if_neg (by simp), splitFrom,
        if_neg (by decide), if_neg (by simp), hcut, pieces_item rfl]
      simp [pieces, textOf, Item.text]
  | @token t w its s hlex _ ih =>
    have hrest := ih hclosed.of_cons (quietComments_cons hquiet)
    by_cases hsemi : t.kind = .semicolon
    · obtain rfl := semicolon_text hlex hsemi
      obtain ⟨its', hcut, hits'⟩ := hrest []
      refine ⟨.token t [';'] :: its', hcut.cons _, ?_⟩
      have hstop : splitFrom cur false ([';'] ++ s) = keep cur ++ splitFrom [] false s := by
        rw [List.singleton_append, splitFrom, if_neg (by decide), if_pos ⟨rfl, rfl⟩]
      rw [hstop, hits']
      unfold pieces
      rw [groups_semicolon (by simpa [isSemicolon] using hsemi)]
      cases its'.splitOnP isSemicolon <;> simp [textOf]
    · obtain ⟨its', hcut, hits'⟩ := hrest (cur ++ w)
      refine ⟨.token t w :: its', hcut.cons _, ?_⟩
      have hword := quiet_lexeme hlex hsemi (hclosed t w (List.mem_cons_self ..))
      rw [pieces_item (by simpa [isSemicolon] using hsemi), splitFrom_quiet hword, hits']
      rfl

end Dbms.Client
