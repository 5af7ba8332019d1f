import Dbms.Sql.OneLine

/-! CREATE DATABASE, and what becomes of it on one line. -/

open Dbms.Core Dbms.Lib Dbms.Sql.Lexer Dbms.Sql.Grammar Dbms.Sql.Parser

namespace Dbms.Sql

section
variable {σ : Type} {S : TokenSource σ} {s s' : σ} {st : Statement} {d : Text}

theorem statement_create (h : statement S s st s') (hkw : isKw (S.token s) "CREATE" = true) :
    create S (S.scan s).2 st s' := by
  obtain ⟨word, _, s₁, ⟨hword, -, rfl⟩, hform⟩ := h
  obtain rfl : "CREATE" = word := isKw_unique hkw hword
  simpa [form] using hform

theorem create_kw (h : create S s st s') : ∃ word, isKw (S.token s) word = true := by
  rcases h with ⟨_, _, ⟨hkw, _⟩, _⟩ | ⟨_, _, ⟨hkw, _⟩, _⟩ | ⟨_, _, ⟨hkw, _⟩, _⟩ | ⟨_, _, ⟨hkw, _⟩, _⟩ <;>
    exact ⟨_, hkw⟩

theorem create_database (h : create S s st s') (hkw : isKw (S.token s) "DATABASE" = true) :
    (S.token (S.scan s).2).kind = .ident ∧
      st = .createDatabase (S.token (S.scan s).2).text ∧ s' = (S.scan (S.scan s).2).2 := by
  rcases h with ⟨_, _, ⟨_, _, rfl⟩, name, _, ⟨hident, rfl, rfl⟩, rfl, rfl⟩ | ⟨_, _, ⟨hkw', _⟩, _⟩ |
    ⟨_, _, ⟨hkw', _⟩, _⟩ | ⟨_, _, ⟨hkw', _⟩, _⟩
  · exact ⟨hident, rfl, rfl⟩
  all_goals exact absurd (isKw_unique hkw hkw') (by decide)

theorem statement_createDatabase (h : statement S s (.createDatabase d) s') :
    ∃ a b c, S.Takes [a, b, c] s s' ∧ isKw a "CREATE" = true ∧ isKw b "DATABASE" = true ∧
      c.kind = .ident ∧ c.text = d := by
  obtain ⟨word, _, s₁, ⟨hword, -, rfl⟩, hform⟩ := h
  obtain rfl : "CREATE" = word := gives_form word _ _ _ hform
  have hcreate : create S (S.scan s).2 (.createDatabase d) s' := by simpa [form] using hform
  rcases hcreate with ⟨_, _, ⟨hkw, _, rfl⟩, name, _, ⟨hident, rfl, rfl⟩, heq, rfl⟩ |
    ⟨_, _, _, n, _, _, _, _, _, columns, _, hcols, _, _, _, heq, _⟩ |
    ⟨_, _, _, _, _, _, _, _, _, heq, _⟩ | ⟨_, _, _, _, _, _, heq, _⟩ <;> cases heq
  exact ⟨_, _, _, ⟨rfl, rfl, rfl, rfl⟩, hword, hkw, hident, rfl⟩

theorem not_eof_of_kw {word : String} {t : Token} (h : isKw t word = true) : t.kind ≠ .eof := by
  rw [isKw_kind h]
  simp

end

section Line
variable {f : Char → Char} {body post rest : Text} {st : Statement} {d : Text}

theorem line_createDatabase (hf : Blanking f) (hpost : ∀ c ∈ post, isSpace c = true ∨ c = ';')
    (hbreak : ∀ c, f c ≠ '\n') (h : statement texts (body ++ [' ']) (.createDatabase d) rest)
    {r : Text} (hline : statement texts ((body ++ post ++ [' ']).map f) st r) :
    st = .createDatabase d := by
  obtain ⟨a, b, c, htakes, ha, hb, hc, rfl⟩ := statement_createDatabase h
  have hplain : ∀ {t : Token}, t.kind ≠ .string → blankToken f t = t := fun ht => if_neg ht
  have hblank : [a, b, c].map (blankToken f) = [a, b, c] := by
    simp [hplain, isKw_kind ha, isKw_kind hb, hc]
  have hsolid : ∀ t ∈ [a, b, c], t.kind ≠ .eof := by
    simp [isKw_kind ha, isKw_kind hb, hc]
  -- Without a comment before one of its tokens the line has all three, unchanged: none is a string.
  by_cases halong : Along [a, b, c] (body ++ [' '])
  · have hrest : rest ≠ [] := by
      rintro rfl
      obtain ⟨us, v, hcut, -⟩ := takes_open hf hpost htakes hsolid halong
      obtain ⟨-, hlast⟩ := List.append_inj' (show [a, b] ++ [c] = us ++ [_] from hcut) rfl
      obtain rfl := List.singleton_inj.mp hlast
      cases hc
    obtain ⟨x, y, -, -, hrun⟩ := takes_line hf hpost htakes hsolid halong hrest
    rw [hblank] at hrun
    obtain ⟨htoka, htokb, htokc, -⟩ := hrun
    rw [htoka] at ha
    rw [htokb] at hb
    rw [htokc]
    exact (create_database (statement_create hline ha) hb).2.1
  · obtain ⟨us, t, vs, m, hcut, hus, hclear, hm, hvs⟩ := exists_comment htakes halong
    have hpre : ∀ t ∈ us, t.kind ≠ .eof := fun t ht => hsolid t (by
      rw [hcut]
      exact List.mem_append_left _ ht)
    have hne : m ≠ [] := by
      rintro rfl
      have ht := hsolid t (by simp [hcut])
      rw [hvs.1] at ht
      exact ht rfl
    obtain ⟨x, y, rfl, rfl, hrun⟩ := takes_line hf hpost hus hpre hclear hne
    have hend := next_comment (s := (y ++ post ++ [' ']).map f) (by
      intro c hc
      obtain ⟨z, -, rfl⟩ := List.mem_map.mp hc
      exact hbreak z) (commented_line hf hm)
    -- the comment takes the rest of the line, so a word is missing in it
    obtain ⟨word, _, _, ⟨hword, -, rfl⟩, -⟩ := id hline
    rcases us with - | ⟨a', - | ⟨b', us⟩⟩
    · change _ = _ at hrun
      rw [hrun] at hend
      exact absurd hend (not_eof_of_kw hword)
    · obtain ⟨rfl, -⟩ := List.cons.inj hcut
      rw [List.map_singleton, hplain (by simp [isKw_kind ha])] at hrun
      obtain ⟨htoka, hrun⟩ := hrun
      change _ = _ at hrun
      rw [htoka] at ha
      obtain ⟨word', hword'⟩ := create_kw (statement_create hline ha)
      rw [hrun] at hend
      exact absurd hend (not_eof_of_kw hword')
    · simp only [List.cons_append, List.cons.injEq] at hcut
      obtain ⟨rfl, rfl, hcut⟩ := hcut
      obtain rfl : us = [] := by
        have hlen := congrArg List.length hcut
        simp only [List.length_append, List.length_cons, List.length_nil] at hlen
        exact List.length_eq_zero_iff.mp (by omega)
      simp only [List.map_cons, List.map_nil, hplain (show a.kind ≠ .string by simp [isKw_kind ha]),
        hplain (show b.kind ≠ .string by simp [isKw_kind hb])] at hrun
      obtain ⟨htoka, htokb, hrun⟩ := hrun
      change _ = _ at hrun
      rw [htoka] at ha
      rw [htokb] at hb
      have hident := (create_database (statement_create hline ha) hb).1
      rw [hrun] at hend
      cases hident.symm.trans hend

end Line
end Dbms.Sql
