import Dbms.Sql.Alike
import Dbms.Sql.Carried
import Dbms.Sql.Items
import Dbms.Sql.Spelled

/-! What becomes of a statement when blanks are put for the line breaks of its text. -/

open Dbms.Core Dbms.Lib Dbms.Sql.Lexer

namespace Dbms.Sql

namespace Lexer
variable {f : Char → Char} {r r' s s' x : Text} {t : Token}

theorem lead_congr (h : lead r' = lead r) : lead (x ++ r') = lead (x ++ r) := by
  unfold lead at h ⊢
  rw [List.takeWhile_append, List.takeWhile_append, h]

theorem Blanking.lead_append (hf : Blanking f) (h : lead r' = lead r) :
    lead (x.map f ++ r') = lead (x ++ r) := by
  rw [lead_congr h]
  have hx := hf.lead_eq x
  unfold lead at hx ⊢
  rw [List.takeWhile_append, List.takeWhile_append, hx, List.length_map]
  split
  · rename_i hlen
    -- all of it is carried on
    have hself : x.takeWhile isGlue = x := (List.takeWhile_prefix isGlue).eq_of_length hlen
    rw [hself] at hx
    rw [show x.map f = x from map_eq_self fun c hc => hf.keeps c (.inl ?_)]
    simp [isSolid, List.takeWhile_eq_self_iff.mp hself c hc]
  · rfl

theorem Blanking.isSpace_of (hf : Blanking f) {c : Char} (hc : isSpace c = true) :
    isSpace (f c) = true := by
  rcases hf.blanks c with h | h
  · rw [h, hc]
  · rw [h]
    rfl

theorem Blanking.idem (hf : Blanking f) (c : Char) : f (f c) = f c := by
  rcases hf.blanks c with h | h
  · rw [h, h]
  · rw [h]
    exact (hf.blanks ' ').elim id id

def Uncommented (s : Text) : Prop := ¬['-', '-'] <+: s.dropWhile isSpace

instance (s : Text) : Decidable (Uncommented s) := inferInstanceAs (Decidable (¬_))

theorem skipWs_of_uncommented (h : Uncommented s) : skipWs false s = s.dropWhile isSpace := by
  induction s with
  | nil => rfl
  | cons c s ih =>
    unfold Uncommented at h ih
    by_cases hc : isSpace c = true
    · rw [List.dropWhile_cons_of_pos hc] at h ⊢
      rw [skipWs, if_pos hc, ih h]
    · rw [List.dropWhile_cons_of_neg hc] at h ⊢
      rw [skipWs, if_neg hc, if_neg]
      intro hdash
      simp only [Bool.and_eq_true, decide_eq_true_eq] at hdash
      obtain ⟨rfl, hhead⟩ := hdash
      obtain ⟨r, rfl⟩ := List.head?_eq_some_iff.mp hhead
      exact h ⟨r, rfl⟩

theorem gap_of_spaces {g : Text} (h : ∀ c ∈ g, isSpace c = true) : Gap g := by
  induction g with
  | nil => exact .nil
  | cons c g ih =>
    exact .space (h c (List.mem_cons_self ..)) (ih fun x hx => h x (List.mem_cons_of_mem _ hx))

theorem next_blanked (hf : Blanking f) (hs : Uncommented s) (hnext : next s = (t, r))
    (ht : t.kind ≠ .eof) (hr : r ≠ []) :
    ∃ x, s = x ++ r ∧ ∀ r', lead r' = lead r → next (x.map f ++ r') = (blankToken f t, r') := by
  unfold next at hnext
  rw [skipWs_of_uncommented hs] at hnext
  have hsplit := (s.takeWhile_append_dropWhile (p := isSpace)).symm
  cases hdrop : s.dropWhile isSpace with
  | nil =>
    rw [hdrop] at hnext
    cases hnext
    exact absurd rfl ht
  | cons c s' =>
    rw [hdrop] at hnext hsplit
    have hscan : scan c s' = (t, r) := hnext
    obtain ⟨w, hw, hlex⟩ : ∃ w, s' = w ++ r ∧ Lexeme r t (c :: w) := by
      have hfinds := scan_finds c s'
      rw [hscan] at hfinds
      refine hfinds ht fun hc hend => hr ?_
      -- a string that is not closed leaves nothing
      subst hc
      have hstring : scan quote s' = scanString s' := rfl
      rw [hstring] at hscan
      have hrest := congrArg Prod.snd hscan
      rw [scanString, hend] at hrest
      exact hrest.symm
    refine ⟨s.takeWhile isSpace ++ c :: w, ?_, fun r' hr' => ?_⟩
    · rw [List.append_assoc, List.cons_append, ← hw]
      exact hsplit
    · rw [List.map_append]
      refine next_lexeme (gap_of_spaces fun y hy => ?_) (hlex.map hf hr')
      obtain ⟨z, hz, rfl⟩ := List.mem_map.mp hy
      exact hf.isSpace_of (List.mem_takeWhile_imp hz)

def Along : List Token → Text → Prop
  | [], _ => True
  | _ :: ts, s => Uncommented s ∧ Along ts (next s).2

theorem takes_ne_nil {ts : List Token} (h : texts.Takes ts s s') (hts : ∀ t ∈ ts, t.kind ≠ .eof)
    (hs' : s' ≠ []) : s ≠ [] := by
  rintro rfl
  cases ts with
  | nil => exact hs' h
  | cons t ts =>
    have heof := hts t (List.mem_cons_self ..)
    rw [h.1] at heof
    exact heof rfl

theorem takes_blanked (hf : Blanking f) {ts : List Token} (h : texts.Takes ts s s')
    (hts : ∀ t ∈ ts, t.kind ≠ .eof) (halong : Along ts s) (hs' : s' ≠ []) :
    ∃ x, s = x ++ s' ∧ ∀ r', lead r' = lead s' →
      texts.Takes (ts.map (blankToken f)) (x.map f ++ r') r' := by
  induction ts generalizing s with
  | nil => exact ⟨[], h.symm, fun r' _ => rfl⟩
  | cons t ts ih =>
    have hrest := fun t ht => hts t (List.mem_cons_of_mem _ ht)
    obtain ⟨y, hy, hrun⟩ := ih h.2 hrest halong.2
    have hnext : next s = (t, (next s).2) := Prod.ext h.1.symm rfl
    obtain ⟨x, hx, hfirst⟩ := next_blanked hf halong.1 hnext (hts t (List.mem_cons_self ..))
      (takes_ne_nil h.2 hrest hs')
    refine ⟨x ++ y, ?_, fun r' hr' => ?_⟩
    · rw [List.append_assoc, ← show (next s).2 = y ++ s' from hy]
      exact hx
    · have hlead : lead (y.map f ++ r') = lead (next s).2 := by
        rw [show (next s).2 = y ++ s' from hy]
        exact hf.lead_append hr'
      have hn := hfirst _ hlead
      rw [List.map_append, List.append_assoc]
      refine ⟨congrArg Prod.fst hn.symm, ?_⟩
      show texts.Takes _ (next (x.map f ++ (y.map f ++ r'))).2 r'
      rw [hn]
      exact hrun r' hr'

theorem skipWs_comment_line (h : ∀ c ∈ s, c ≠ '\n') : skipWs true s = s.dropWhile (· ≠ nul) := by
  induction s with
  | nil => rfl
  | cons c s ih =>
    rw [skipWs]
    by_cases hc : c = nul
    · rw [if_pos hc, List.dropWhile_cons_of_neg (by simp [hc])]
    · rw [if_neg hc, if_neg (h c (List.mem_cons_self ..)), List.dropWhile_cons_of_pos (by simp [hc])]
      exact ih fun x hx => h x (List.mem_cons_of_mem _ hx)

theorem exists_spaces (s : Text) :
    ∃ g r, s = g ++ r ∧ (∀ c ∈ g, isSpace c = true) ∧ s.dropWhile isSpace = r :=
  ⟨_, _, List.takeWhile_append_dropWhile.symm, fun _ hc => List.mem_takeWhile_imp hc, rfl⟩

theorem next_comment (h : ∀ c ∈ s, c ≠ '\n') (hs : ¬Uncommented s) : (next s).1.kind = .eof := by
  obtain ⟨g, r, rfl, hg, hdrop⟩ := exists_spaces s
  obtain ⟨z, rfl⟩ : ['-', '-'] <+: r := hdrop ▸ not_not.mp hs
  have hskip : skipWs false (g ++ ('-' :: '-' :: z)) = z.dropWhile (· ≠ nul) := by
    rw [(gap_of_spaces hg).skipWs, skipWs_dashes]
    exact skipWs_comment_line fun c hc => h c (by simp [hc])
  unfold next
  rw [show g ++ (['-', '-'] ++ z) = g ++ ('-' :: '-' :: z) from rfl, hskip]
  cases hz : z.dropWhile (· ≠ nul) with
  | nil => rfl
  | cons c r =>
    have hhead := List.dropWhile_get_zero_not (· ≠ nul) z (by rw [hz]; simp)
    simp only [List.get_eq_getElem, hz] at hhead
    obtain rfl : c = nul := by simpa using hhead
    rfl

theorem append_space_inj {y w : Text} {e : Char} (h : y ++ [' '] = w ++ [e]) : y = w ∧ e = ' ' := by
  obtain ⟨hy, he⟩ := List.append_inj' h rfl
  exact ⟨hy, (List.cons.inj he).1.symm⟩

theorem next_unclosed {y : Text} (hs : Uncommented (y ++ [' '])) (hnext : next (y ++ [' ']) = (t, []))
    (ht : t.kind ≠ .eof) : ∃ g v, y = g ++ quote :: v ∧ (∀ c ∈ g, isSpace c = true) ∧
      (∀ c ∈ v, inString c = true) ∧ t = ⟨.string, v ++ [' ']⟩ := by
  obtain ⟨g, r, hsplit, hg, hdrop⟩ := exists_spaces (y ++ [' '])
  unfold next at hnext
  rw [skipWs_of_uncommented hs, hdrop] at hnext
  cases r with
  | nil =>
    cases hnext
    exact absurd rfl ht
  | cons c s' =>
    have hscan : scan c s' = (t, []) := hnext
    by_cases hopen : c = quote → s'.dropWhile inString ≠ []
    · -- a closed token does not end in a blank
      have hfinds := scan_finds c s'
      rw [hscan] at hfinds
      obtain ⟨w, hw, hlex⟩ := hfinds ht hopen
      rw [List.append_nil] at hw
      obtain ⟨w', e, hlast, he⟩ := hlex.last
      rw [hw, hlast, ← List.append_assoc] at hsplit
      obtain ⟨-, rfl⟩ := append_space_inj hsplit
      cases he
    · simp only [Classical.not_imp, not_not] at hopen
      obtain ⟨rfl, hend⟩ := hopen
      have hin := List.dropWhile_eq_nil_iff.mp hend
      have hstring : scanString s' = (t, []) := hscan
      rw [scanString, List.takeWhile_eq_self_iff.mpr hin] at hstring
      rcases List.eq_nil_or_concat s' with rfl | ⟨v, e, rfl⟩
      · obtain ⟨-, he⟩ := append_space_inj hsplit
        cases he
      · rw [List.concat_eq_append] at hin hstring hsplit
        rw [← List.cons_append, ← List.append_assoc] at hsplit
        obtain ⟨rfl, rfl⟩ := append_space_inj hsplit
        exact ⟨g, v, rfl, hg, fun c hc => hin c (List.mem_append_left _ hc),
          (congrArg Prod.fst hstring).symm⟩

theorem next_open {g v : Text} (hg : ∀ c ∈ g, isSpace c = true) (hv : ∀ c ∈ v, inString c = true) :
    next (g ++ quote :: v) = (⟨.string, v⟩, []) := by
  have hskip : skipWs false (g ++ quote :: v) = quote :: v := (gap_of_spaces hg).skipWs _
  unfold next
  rw [hskip]
  show scanString v = _
  rw [scanString, List.takeWhile_eq_self_iff.mpr hv, List.dropWhile_eq_nil_iff.mpr hv]
  rfl

/-! What the tokens of a text consist of. -/

theorem skipWs_suffix (b : Bool) (s : Text) : skipWs b s <:+ s := by
  fun_induction skipWs b s with
  | case1 => exact List.suffix_refl _
  | case2 c s _ ih | case3 c s _ _ ih => exact ih.trans (List.suffix_cons ..)
  | case4 => exact List.suffix_refl _
  | case5 => exact List.suffix_refl _
  | case6 s _ ih => exact ih.trans (List.suffix_cons ..)
  | case7 c s _ _ ih => exact ih.trans (List.suffix_cons ..)

def Within (c : Char) (s : Text) (r : Token × Text) : Prop :=
  r.2 <:+ c :: s ∧ (r.1.kind = .string → ∀ x ∈ r.1.text, x ∈ s)

theorem within_symbol {c : Char} {k : TokKind} {text : Text} (hr : r <:+ s) (hk : k ≠ .string) :
    Within c s (⟨k, text⟩, r) := ⟨hr.trans (List.suffix_cons ..), fun h => absurd h hk⟩

theorem scan_within (c : Char) (s : Text) : Within c s (scan c s) := by
  have hself : s <:+ s := List.suffix_refl s
  have htail : s.tail <:+ s := List.tail_suffix s
  unfold scan
  refine iteInduction (fun _ => ⟨List.suffix_refl _, fun h => by cases h⟩) fun _ => ?_
  iterate 5 refine iteInduction (fun _ => within_symbol hself (by simp)) fun _ => ?_
  iterate 4 refine iteInduction (fun _ => within_symbol htail (by simp)) fun _ => ?_
  iterate 3 refine iteInduction (fun _ => within_symbol hself (by simp)) fun _ => ?_
  refine iteInduction (fun _ => ?_) fun _ => ?_
  · refine ⟨?_, fun _ x hx => (List.takeWhile_sublist _).subset hx⟩
    exact ((List.tail_suffix _).trans (List.dropWhile_suffix _)).trans (List.suffix_cons ..)
  refine iteInduction (fun _ => ?_) fun _ => ?_
  · unfold scanNumber
    dsimp only
    split
    · exact ⟨List.dropWhile_suffix _, fun h => by cases h⟩
    · exact ⟨List.dropWhile_suffix _, fun h => by cases h⟩
  refine iteInduction (fun _ => ?_) fun _ => ?_
  · unfold scanWord
    dsimp only
    split
    · exact ⟨List.dropWhile_suffix _, fun h => by cases h⟩
    · exact ⟨List.dropWhile_suffix _, fun h => by cases h⟩
  exact within_symbol hself (by simp)

theorem takes_fixed {ts : List Token} (hs : ∀ c ∈ s, f c = c) (h : texts.Takes ts s s') :
    ts.map (blankToken f) = ts := by
  induction ts generalizing s with
  | nil => rfl
  | cons t ts ih =>
    obtain ⟨htoken, hrest⟩ := h
    have hskip := skipWs_suffix false s
    have hnext : (next s).2 <:+ s ∧ ((next s).1.kind = .string → ∀ x ∈ (next s).1.text, x ∈ s) := by
      unfold next
      cases hskip' : skipWs false s with
      | nil => exact ⟨List.nil_suffix, fun h => by cases h⟩
      | cons c r =>
        rw [hskip'] at hskip
        obtain ⟨hsuffix, hstring⟩ := scan_within c r
        exact ⟨hsuffix.trans hskip,
          fun hk x hx => hskip.subset (List.mem_cons_of_mem _ (hstring hk x hx))⟩
    rw [List.map_cons, ih (fun c hc => hs c (hnext.1.subset hc)) hrest]
    congr 1
    unfold blankToken
    split
    · rename_i hk
      rw [htoken] at hk ⊢
      have htext : (texts.token s).text.map f = (texts.token s).text :=
        map_eq_self fun c hc => hs c (hnext.2 hk c hc)
      rw [htext, ← hk]
    · rfl

/-- No comment stands before the tokens that are read from a text until `rest` is left. -/
inductive Clear (rest : Text) : Text → Prop where
  | stop : Clear rest rest
  | token {s : Text} (hs : Uncommented s) : Clear rest (next s).2 → Clear rest s

theorem clear_iff {ts : List Token} (h : texts.Takes ts s s') (hts : ∀ t ∈ ts, t.kind ≠ .eof) :
    Clear s' s ↔ Along ts s := by
  constructor
  · intro hclear
    induction hclear generalizing ts with
    | stop =>
      cases ts with
      | nil => trivial
      | cons t ts => exact absurd (h.size_lt (hts t (List.mem_cons_self ..))) (Nat.lt_irrefl _)
    | token hs _ ih =>
      cases ts with
      | nil => trivial
      | cons t ts => exact ⟨hs, ih h.2 fun u hu => hts u (List.mem_cons_of_mem _ hu)⟩
  · intro halong
    induction ts generalizing s with
    | nil =>
      cases h
      exact .stop
    | cons t ts ih =>
      exact .token halong.1 (ih h.2 (fun u hu => hts u (List.mem_cons_of_mem _ hu)) halong.2)

theorem exists_comment {ts : List Token} (h : texts.Takes ts s s') (hts : ¬Along ts s) :
    ∃ us t vs m, ts = us ++ t :: vs ∧ texts.Takes us s m ∧ Along us s ∧ ¬Uncommented m ∧
      texts.Takes (t :: vs) m s' := by
  induction ts generalizing s with
  | nil => exact absurd trivial hts
  | cons t ts ih =>
    by_cases hs : Uncommented s
    · obtain ⟨us, u, vs, m, rfl, hus, halong, hm, hvs⟩ := ih h.2 fun hrest => hts ⟨hs, hrest⟩
      exact ⟨t :: us, u, vs, m, rfl, ⟨h.1, hus⟩, ⟨hs, halong⟩, hm, hvs⟩
    · exact ⟨[], t, ts, s, rfl, rfl, trivial, hs, h⟩

theorem along_append {ts us : List Token} {m : Text} (h : texts.Takes ts s m)
    (halong : Along (ts ++ us) s) : Along ts s ∧ Along us m := by
  induction ts generalizing s with
  | nil =>
    cases h
    exact ⟨trivial, halong⟩
  | cons t ts ih =>
    obtain ⟨hts, hus⟩ := ih h.2 halong.2
    exact ⟨⟨halong.1, hts⟩, hus⟩

end Lexer

section Line
variable {f : Char → Char} {body post rest m : Text} {st : Statement} {ts us : List Token}

/-- The statement `st` of a text, of which `rest` is left, is also the statement of its line: the text
with `post` behind it and blanks for some of its characters. -/
structure Kept (f : Char → Char) (body post : Text) (st : Statement) (rest : Text) : Prop where
  strings : st.mapString (List.map f) = st
  clear : Clear rest (body ++ [' '])
  closed : rest = [] → post = []
  ends : ¬Grammar.goesOn st
    (next (((body ++ post ++ [' ']).drop (body.length + 1 - rest.length)).map f)).1 = true

variable (hf : Blanking f) (hpost : ∀ c ∈ post, isSpace c = true ∨ c = ';')
include hpost

omit hf in
theorem lead_trimmed : lead (post ++ [' ']) = [] := by
  cases post with
  | nil => rfl
  | cons c post =>
    rcases hpost c (List.mem_cons_self ..) with hc | rfl
    · exact lead_of_space hc _
    · rfl

omit hf in
theorem inString_trimmed : ∀ c ∈ post, inString c = true := by
  intro c hc
  rcases hpost c hc with hspace | rfl
  · simp only [isSpace, Bool.or_eq_true, decide_eq_true_eq] at hspace
    rcases hspace with ((rfl | rfl) | rfl) | rfl <;> rfl
  · rfl

include hf

theorem takes_line (h : texts.Takes us (body ++ [' ']) m) (hus : ∀ t ∈ us, t.kind ≠ .eof)
    (halong : Along us (body ++ [' '])) (hm : m ≠ []) : ∃ x y, body = x ++ y ∧ m = y ++ [' '] ∧
      texts.Takes (us.map (blankToken f)) ((body ++ post ++ [' ']).map f)
        ((y ++ post ++ [' ']).map f) := by
  obtain ⟨x, hx, hrun⟩ := takes_blanked hf h hus halong hm
  rcases List.eq_nil_or_concat m with rfl | ⟨y, e, rfl⟩
  · exact absurd rfl hm
  rw [List.concat_eq_append] at hx hrun ⊢
  rw [← List.append_assoc] at hx
  obtain ⟨rfl, rfl⟩ := append_space_inj hx
  refine ⟨x, y, rfl, rfl, ?_⟩
  have hlead : lead ((y ++ post ++ [' ']).map f) = lead (y ++ [' ']) := by
    rw [hf.lead_eq, List.append_assoc, lead_append (lead_trimmed hpost)]
    exact (lead_append (r := [' ']) rfl).symm
  have htakes := hrun _ hlead
  rwa [← List.map_append, ← List.append_assoc, ← List.append_assoc] at htakes

/-- A text that is used up ends in a string which is not closed. -/
theorem takes_open (h : texts.Takes ts (body ++ [' ']) []) (hts : ∀ t ∈ ts, t.kind ≠ .eof)
    (halong : Along ts (body ++ [' '])) : ∃ us v, ts = us ++ [⟨.string, v ++ [' ']⟩] ∧
      texts.Takes (us.map (blankToken f) ++ [⟨.string, (v ++ post ++ [' ']).map f⟩])
        ((body ++ post ++ [' ']).map f) [] := by
  rcases List.eq_nil_or_concat ts with rfl | ⟨us, t, rfl⟩
  · exact absurd h.symm (by simp)
  rw [List.concat_eq_append] at h hts halong ⊢
  obtain ⟨m, hus, rfl, hend⟩ := Source.takes_append.mp h
  have htoken := hts (texts.token m) (by simp)
  obtain ⟨halong, hm, -⟩ := along_append hus halong
  have hne : m ≠ [] := by
    rintro rfl
    exact htoken rfl
  have hplain := fun t ht => hts t (List.mem_append_left _ ht)
  obtain ⟨x, y, rfl, rfl, hline⟩ := takes_line hf hpost hus hplain halong hne
  obtain ⟨g, v, rfl, hg, hv, ht⟩ := next_unclosed hm (Prod.ext rfl hend.symm) htoken
  refine ⟨us, v, by rw [show texts.token _ = _ from ht], hline.append ?_⟩
  -- Nothing closes the string in the line either: it takes in what was trimmed off.
  have hopen : next ((g ++ quote :: v ++ post ++ [' ']).map f) =
      (⟨.string, (v ++ post ++ [' ']).map f⟩, []) := by
    have hquote : f quote = quote := hf.keeps quote (.inr (.inl rfl))
    have hmap : (g ++ quote :: v ++ post ++ [' ']).map f =
        g.map f ++ quote :: (v ++ post ++ [' ']).map f := by simp [hquote]
    rw [hmap]
    apply next_open
    · intro c hc
      obtain ⟨z, hz, rfl⟩ := List.mem_map.mp hc
      exact hf.isSpace_of (hg z hz)
    · intro c hc
      obtain ⟨z, hz, rfl⟩ := List.mem_map.mp hc
      rw [hf.inString_eq]
      rcases List.mem_append.mp hz with hz | hz
      · exact (List.mem_append.mp hz).elim (hv z) (inString_trimmed hpost z)
      · rw [List.mem_singleton.mp hz]
        rfl
  exact ⟨congrArg Prod.fst hopen.symm, congrArg Prod.snd hopen.symm⟩

theorem takes_behind (h : texts.Takes ts (body ++ [' ']) rest) (hts : ∀ t ∈ ts, t.kind ≠ .eof)
    (halong : Along ts (body ++ [' '])) (hclosed : rest = [] → post = []) :
    texts.Takes (ts.map (blankToken f)) ((body ++ post ++ [' ']).map f)
      (((body ++ post ++ [' ']).drop (body.length + 1 - rest.length)).map f) := by
  by_cases hrest : rest = []
  · subst hrest
    obtain rfl := hclosed rfl
    obtain ⟨us, v, rfl, htakes⟩ := takes_open hf hpost h hts halong
    have hdrop : (body ++ [] ++ [' ']).drop (body.length + 1 - ([] : Text).length) = [] := by simp
    rw [hdrop, List.map_append]
    simp only [List.append_nil] at htakes ⊢
    exact htakes
  · obtain ⟨x, y, rfl, rfl, htakes⟩ := takes_line hf hpost h hts halong hrest
    have hdrop : (x ++ y ++ post ++ [' ']).drop ((x ++ y).length + 1 - (y ++ [' ']).length) =
        y ++ post ++ [' '] := by
      have hlen : (x ++ y).length + 1 - (y ++ [' ']).length = x.length := by simp
      rw [hlen, List.append_assoc, List.append_assoc, List.drop_left, List.append_assoc]
    rwa [hdrop]

theorem parse_of_kept (h : Parser.parse (body ++ [' ']) = .ok (st, rest))
    (hkept : Kept f body post st rest) :
    ∃ r, Parser.parse ((body ++ post ++ [' ']).map f) = .ok (st, r) := by
  obtain ⟨hst, -⟩ := Parser.parse_eq_ok.mp h
  obtain ⟨ts, hts, hsolid, hcarry⟩ := Grammar.carried_statement rfl _ _ _ hst
  have halong := (clear_iff hts hsolid).mp hkept.clear
  have hline := hcarry _ _ (takes_behind hf hpost hts hsolid halong hkept.closed)
  rw [hkept.strings] at hline
  exact ⟨_, Parser.parse_eq_ok.mpr ⟨hline, hkept.ends⟩⟩

/-! The converse. -/

omit hf hpost in
theorem same_tokens {s s' u u' : Text} (hst : ∀ table columns, st ≠ .createTable table columns)
    (h : Grammar.statement texts s st s') (h' : Grammar.statement texts u st u')
    (hts : texts.Takes ts s s') (hsolid : ∀ t ∈ ts, t.kind ≠ .eof)
    (hus : texts.Takes us u u') (hsolid' : ∀ t ∈ us, t.kind ≠ .eof) :
    List.Forall₂ SameString ts us := by
  obtain ⟨ts', us', hts', hus', hE⟩ := Grammar.matches_statement rfl hst h h'
  obtain ⟨hleft, hright⟩ := ne_eof_of_same hE
  rwa [hts.unique hts' hsolid hleft, hus.unique hus' hsolid' hright]

omit hpost hf in
theorem takes_initial {s m s' : Text} (h : texts.Takes ts s m) (hm : (texts.token m).kind = .eof)
    (hus : texts.Takes us s s') (hsolid : ∀ t ∈ us, t.kind ≠ .eof) : ∃ vs, ts = us ++ vs := by
  induction us generalizing s ts with
  | nil => exact ⟨ts, rfl⟩
  | cons u us ih =>
    cases ts with
    | nil =>
      cases h
      exact absurd (hus.1 ▸ hm) (hsolid u (List.mem_cons_self ..))
    | cons t ts =>
      obtain ⟨vs, rfl⟩ := ih h.2 hus.2 fun v hv => hsolid v (List.mem_cons_of_mem _ hv)
      exact ⟨vs, by rw [h.1, hus.1, List.cons_append]⟩

omit hpost in
theorem commented_line {y : Text} (h : ¬Uncommented (y ++ [' '])) :
    ¬Uncommented ((y ++ post ++ [' ']).map f) := by
  obtain ⟨g, r, hsplit, hg, hdrop⟩ := exists_spaces (y ++ [' '])
  obtain ⟨z, rfl⟩ : ['-', '-'] <+: r := hdrop ▸ not_not.mp h
  have hdash : f '-' = '-' := hf.keeps '-' (.inl rfl)
  obtain ⟨w, rfl⟩ : ∃ w, y = g ++ '-' :: '-' :: w := by
    rcases List.eq_nil_or_concat z with rfl | ⟨w, e, rfl⟩
    · have hlast : y ++ [' '] = g ++ ['-'] ++ ['-'] := by rw [hsplit]; simp
      cases (append_space_inj hlast).2
    · refine ⟨w, (append_space_inj (e := e) ?_).1⟩
      rw [hsplit]
      simp
  have hmap : (g ++ '-' :: '-' :: w ++ post ++ [' ']).map f =
      g.map f ++ '-' :: '-' :: (w ++ post ++ [' ']).map f := by simp [hdash]
  have hspaces : ∀ c ∈ g.map f, isSpace c = true := by
    intro c hc
    obtain ⟨x, hx, rfl⟩ := List.mem_map.mp hc
    exact hf.isSpace_of (hg x hx)
  unfold Uncommented
  rw [not_not, hmap, List.dropWhile_append_of_pos hspaces]
  exact ⟨_, rfl⟩

omit hpost in
theorem map_fixed (s : Text) : ∀ c ∈ s.map f, f c = c := by
  intro c hc
  obtain ⟨z, -, rfl⟩ := List.mem_map.mp hc
  exact hf.idem z

omit hf hpost in
/-- Read from a text with its strings blanked, a table ends at one place. -/
theorem createTable_length {table : Name} {columns : List ColumnDef} {xs : List Token} {s s' u u' : Text}
    (hf : Blanking f) (h : Grammar.statement texts s (.createTable table columns) s')
    (h' : Grammar.statement texts (u.map f) (.createTable table columns) u')
    (hts : texts.Takes ts s s') (hsolid : ∀ t ∈ ts, t.kind ≠ .eof) (hus : texts.Takes us (u.map f) u')
    (husolid : ∀ t ∈ us, t.kind ≠ .eof) (hcut : ts.map (blankToken f) = us ++ xs) :
    us.length = ts.length := by
  have hcarried : Grammar.CarriedStatement texts (texts.mapString (List.map f)) (List.map f) _ _ :=
    Grammar.carried_statement rfl
  obtain ⟨ts', hts', hsolid', hcarry⟩ := hcarried _ _ _ h
  obtain ⟨us', hus', husolid', hcarry'⟩ := hcarried _ _ _ h'
  obtain rfl := hts.unique hts' hsolid hsolid'
  obtain rfl := hus.unique hus' husolid husolid'
  have hall := TokenSource.takes_mapString (F := List.map f) hts
  have hboth := hall
  rw [show ts.map (Token.mapString (List.map f)) = us ++ xs from hcut] at hboth
  obtain ⟨n, hn, -⟩ := Source.takes_append.mp hboth
  have hfixed : us.map (Token.mapString (List.map f)) = us := takes_fixed (map_fixed hf u) hus
  rw [hfixed] at hcarry'
  have hsecond := hcarry' s n hn
  obtain ⟨-, rfl⟩ := Grammar.statement_unique (hcarry s s' hall) Bool.false_ne_true hsecond
    Bool.false_ne_true
  rw [hn.unique hall husolid fun t ht => ?_, List.length_map]
  obtain ⟨z, hz, rfl⟩ := List.mem_map.mp ht
  show (Token.mapString _ z).kind ≠ .eof
  rw [Token.mapString_kind]
  exact hsolid z hz

/-- If the line has the statement too, no comment stands before one of its tokens: it would take the
rest of the line. -/
theorem clear_of_parse (hbreak : ∀ c, f c ≠ '\n')
    (hT : Grammar.statement texts (body ++ [' ']) st rest) {r : Text}
    (hS : Grammar.statement texts ((body ++ post ++ [' ']).map f) st r) : Clear rest (body ++ [' ']) := by
  have hcarried : Grammar.CarriedStatement texts texts (List.map f) _ _ := Grammar.carried_statement rfl
  obtain ⟨ts, hts, hsolid, -⟩ := hcarried _ _ _ hT
  obtain ⟨us, hus, husolid, -⟩ := hcarried _ _ _ hS
  rw [clear_iff hts hsolid]
  by_contra halong
  obtain ⟨ws, t, vs, m, rfl, hws, hclear, hm, hvs⟩ := exists_comment hts halong
  have ht := hsolid t (by simp)
  have hne : m ≠ [] := by
    rintro rfl
    rw [hvs.1] at ht
    exact ht rfl
  have hwsolid := fun t ht => hsolid t (List.mem_append_left _ ht)
  obtain ⟨x, y, rfl, rfl, hline⟩ := takes_line hf hpost hws hwsolid hclear hne
  have hbroken : ∀ c ∈ (y ++ post ++ [' ']).map f, c ≠ '\n' := by
    intro c hc
    obtain ⟨z, -, rfl⟩ := List.mem_map.mp hc
    exact hbreak z
  obtain ⟨xs, hcut⟩ := takes_initial hline (next_comment hbroken (@commented_line f post hf y hm)) hus
    husolid
  have hshort : us.length ≠ (ws ++ t :: vs).length := by
    have hsum := congrArg List.length hcut
    rw [List.length_map, List.length_append] at hsum
    rw [List.length_append, List.length_cons]
    omega
  by_cases hst : ∃ table columns, st = .createTable table columns
  · obtain ⟨table, columns, rfl⟩ := hst
    have hwhole : (ws ++ t :: vs).map (blankToken f) = us ++ (xs ++ (t :: vs).map (blankToken f)) := by
      rw [List.map_append, hcut, List.append_assoc]
    exact hshort (createTable_length hf hT hS hts hsolid hus husolid hwhole)
  · simp only [not_exists] at hst
    exact hshort (same_tokens hst hT hS hts hsolid hus husolid).length_eq.symm

/-- If it has, and the text is used up, nothing was trimmed off: a string that is not closed would take
it in. -/
theorem closed_of_parse (hclear : Clear [] (body ++ [' ']))
    (hT : Grammar.statement texts (body ++ [' ']) st []) {r : Text}
    (hS : Grammar.statement texts ((body ++ post ++ [' ']).map f) st r) : post = [] := by
  have hcarried : Grammar.CarriedStatement texts texts (List.map f) _ _ := Grammar.carried_statement rfl
  obtain ⟨ts, hts, hsolid, -⟩ := hcarried _ _ _ hT
  obtain ⟨us, hus, husolid, -⟩ := hcarried _ _ _ hS
  obtain ⟨ws, v, rfl, hline⟩ := takes_open hf hpost hts hsolid ((clear_iff hts hsolid).mp hclear)
  by_cases hst : ∃ table columns, st = .createTable table columns
  · obtain ⟨table, columns, rfl⟩ := hst
    obtain ⟨xs, t, hxs, hxsolid, ht⟩ := Grammar.takes_createTable hT
    have hlast := hts.unique hxs hsolid fun x hx => by
      rcases List.mem_append.mp hx with hx | hx
      · exact hxsolid x hx
      · rw [List.mem_singleton.mp hx]
        simp [texts, textSource, ht]
    obtain ⟨-, hstring⟩ := List.append_inj' hlast rfl
    cases hstring
    cases ht
  · simp only [not_exists] at hst
    have hsame := same_tokens hst hT hS hts hsolid hus husolid
    obtain rfl : us = _ := hus.same_length hline (by simpa using hsame.length_eq.symm)
    have hlast := List.forall₂_drop_append _ _ _ hsame
    rw [List.length_map, List.drop_left] at hlast
    cases hlast with
    | cons hstring _ =>
      have htext : v ++ [' '] = (v ++ post ++ [' ']).map f := Option.some.inj hstring.same
      have hlen := congrArg List.length htext
      rw [List.length_map, List.append_assoc, List.length_append, List.length_append,
        List.length_append] at hlen
      exact List.length_eq_zero_iff.mp (by omega)

theorem parse_line_iff (hbreak : ∀ c, f c ≠ '\n')
    (h : Parser.parse (body ++ [' ']) = .ok (st, rest)) :
    (∃ r, Parser.parse ((body ++ post ++ [' ']).map f) = .ok (st, r)) ↔ Kept f body post st rest := by
  refine ⟨?_, parse_of_kept hf hpost h⟩
  rintro ⟨r, hline⟩
  obtain ⟨hT, hstop⟩ := Parser.parse_eq_ok.mp h
  obtain ⟨hS, hstop'⟩ := Parser.parse_eq_ok.mp hline
  have hcarried : Grammar.CarriedStatement texts texts (List.map f) _ _ := Grammar.carried_statement rfl
  have hstrings : st.mapString (List.map f) = st := by
    obtain ⟨us, hus, -, hcarry⟩ := hcarried _ _ _ hS
    have hfixed : us.map (Token.mapString (List.map f)) = us := takes_fixed (map_fixed hf _) hus
    rw [hfixed] at hcarry
    exact (Grammar.statement_unique (hcarry _ _ hus) (by rwa [Grammar.goesOn_mapString]) hS hstop').1
  have hclear := clear_of_parse hf hpost hbreak hT hS
  have hclosed : rest = [] → post = [] := by
    rintro rfl
    exact closed_of_parse hf hpost hclear hT hS
  refine ⟨hstrings, hclear, hclosed, fun hgoes => ?_⟩
  -- otherwise the line would have the statement twice, with an end of its own each time
  obtain ⟨ts, hts, hsolid, hcarry⟩ := hcarried _ _ _ hT
  have hbehind := takes_behind hf hpost hts hsolid ((clear_iff hts hsolid).mp hclear) hclosed
  have hS' := hcarry _ _ hbehind
  rw [hstrings] at hS'
  have hst : ∀ table columns, st ≠ .createTable table columns := by
    rintro table columns rfl
    cases hgoes
  obtain ⟨xs, us, hxs, hus, hsame⟩ := Grammar.matches_statement rfl hst hS' hS
  rw [hxs.place hus hsame.length_eq] at hgoes
  exact hstop' hgoes

end Line
end Dbms.Sql
