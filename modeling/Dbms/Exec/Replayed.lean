import Dbms.Core.Journaled
import Dbms.Exec.Basic
import Dbms.Exec.Run
import Dbms.Sql.OneLine

/-! Statements that are written to a journal and read back. -/

open Dbms.Core Dbms.Sql Dbms.Sql.Lexer Dbms.Lib

namespace Dbms.Exec

/-! What is trimmed off. -/

theorem exists_trim (s : Text) : ∃ g g', s = g ++ trim s ++ g' ∧ (∀ c ∈ g, isSpace c = true) ∧
    ∀ c ∈ g', isSpace c = true := by
  obtain ⟨g', r, hr, hg', hdrop'⟩ := exists_spaces s.reverse
  obtain ⟨g, t, ht, hg, hdrop⟩ := exists_spaces r.reverse
  have htrim : trim s = t := by
    unfold trim List.rdropWhile
    rw [hdrop', hdrop]
  refine ⟨g, g'.reverse, ?_, hg, fun c hc => hg' c (List.mem_reverse.mp hc)⟩
  rw [htrim, ← ht, ← List.reverse_append, ← hr, List.reverse_reverse]

theorem trim_head {s r : Text} {c : Char} (h : trim s = c :: r) : isSpace c = false := by
  have hhead := List.dropWhile_get_zero_not isSpace (s.rdropWhile isSpace) (by
    rw [show (s.rdropWhile isSpace).dropWhile isSpace = _ from h]; simp)
  simp only [List.get_eq_getElem, show (s.rdropWhile isSpace).dropWhile isSpace = _ from h] at hhead
  simpa using hhead

theorem exists_statementText (sql : Text) : ∃ g post, sql = g ++ statementText sql ++ post ∧
    (∀ c ∈ g, isSpace c = true) ∧ ∀ c ∈ post, isSpace c = true ∨ c = ';' := by
  obtain ⟨g, g', hsql, hg, hg'⟩ := exists_trim sql
  obtain ⟨cut, semi, hcut, hsemi, hbody⟩ : ∃ cut semi : Text, trim sql = cut ++ semi ∧
      (∀ c ∈ semi, c = ';') ∧ statementText sql = trim cut := by
    by_cases hlast : (trim sql).getLast? = some ';'
    · obtain ⟨s, hs⟩ := List.getLast?_eq_some_iff.mp hlast
      refine ⟨s, [';'], hs, by simp, ?_⟩
      unfold statementText
      dsimp only
      rw [if_pos hlast, hs, List.dropLast_concat]
    · refine ⟨trim sql, [], (List.append_nil _).symm, nofun, ?_⟩
      unfold statementText
      dsimp only
      rw [if_neg hlast]
  obtain ⟨g₂, g₂', htrim, hg₂, hg₂'⟩ := exists_trim cut
  refine ⟨g ++ g₂, g₂' ++ semi ++ g', ?_, ?_, ?_⟩
  · rw [hbody]
    calc sql = g ++ trim sql ++ g' := hsql
      _ = g ++ (g₂ ++ trim cut ++ g₂' ++ semi) ++ g' := by rw [hcut, ← htrim]
      _ = g ++ g₂ ++ trim cut ++ (g₂' ++ semi ++ g') := by simp only [List.append_assoc]
  · intro c hc
    exact (List.mem_append.mp hc).elim (hg c) (hg₂ c)
  · intro c hc
    rcases List.mem_append.mp hc with hc | hc
    · exact (List.mem_append.mp hc).elim (fun h => .inl (hg₂' c h)) fun h => .inr (hsemi c h)
    · exact .inl (hg' c hc)

def trimmedOff (sql : Text) : Text := (sql.dropWhile isSpace).drop (statementText sql).length

theorem trimmedOff_spec {sql : Text} (h : statementText sql ≠ []) :
    ∃ g, sql = g ++ statementText sql ++ trimmedOff sql ∧ (∀ c ∈ g, isSpace c = true) ∧
      ∀ c ∈ trimmedOff sql, isSpace c = true ∨ c = ';' := by
  obtain ⟨g, post, hsql, hg, hpost⟩ := exists_statementText sql
  have htrimmed : trimmedOff sql = post := by
    obtain ⟨c, r, hbody⟩ := List.exists_cons_of_ne_nil h
    have hc : ¬isSpace c = true := by simp [trim_head hbody]
    unfold trimmedOff
    rw [hbody] at hsql ⊢
    rw [hsql, List.append_assoc, List.dropWhile_append_of_pos hg, List.cons_append,
      List.dropWhile_cons_of_neg hc, ← List.cons_append, List.drop_left]
  rw [htrimmed]
  exact ⟨g, hsql, hg, hpost⟩

/-! The line of a record. -/

def Parses (src : Text) (st : Statement) : Prop := ∃ rest, Parser.parse src = .ok (st, rest)

theorem Parses.unique {src : Text} {st st' : Statement} (h : Parses src st) (h' : Parses src st') :
    st = st' := by
  obtain ⟨rest, h⟩ := h
  obtain ⟨rest', h'⟩ := h'
  exact congrArg Prod.fst (Except.ok.inj (h.symm.trans h'))

theorem parses_spaces {g s : Text} {st : Statement} (hg : ∀ c ∈ g, isSpace c = true) :
    Parses (g ++ s) st ↔ Parses s st := by
  have hnext : next (g ++ s) = next s := by
    unfold next
    rw [(gap_of_spaces hg).skipWs]
  have hstatement : Grammar.statement texts (g ++ s) = Grammar.statement texts s := by
    funext st rest
    have hscan : texts.scan (g ++ s) = texts.scan s := hnext
    simp only [Grammar.statement, Phrase.bind_iff, Grammar.kw, Phrase.token, hscan]
  unfold Parses
  simp only [Parser.parse_eq_ok]
  rw [show Grammar.statement (textSource Parser.stollRange) (g ++ s) = _ from hstatement]

theorem blankChar_blanking : Blanking Journal.blankChar where
  keeps c hc := by
    unfold Journal.blankChar
    rw [if_neg]
    intro h
    simp only [Bool.or_eq_true, decide_eq_true_eq] at h
    rcases h with (rfl | rfl) | rfl <;> revert hc <;> decide
  blanks c := by
    unfold Journal.blankChar
    split
    · exact .inr rfl
    · exact .inl rfl

theorem parses_record_iff {sql rest : Text} {st : Statement}
    (h : Parser.parse (statementText sql ++ [' ']) = .ok (st, rest)) :
    Parses (Journal.sanitizeLine sql ++ [' ']) st ↔
      Kept Journal.blankChar (statementText sql) (trimmedOff sql) st rest := by
  have hne : statementText sql ≠ [] := by
    intro hempty
    rw [hempty] at h
    cases h
  obtain ⟨g, hsql, hg, hpost⟩ := trimmedOff_spec hne
  rw [← parse_line_iff blankChar_blanking hpost (fun c => (Journal.blankChar_ne c).1) h]
  have hline : Journal.sanitizeLine sql ++ [' '] = g.map Journal.blankChar ++
      (statementText sql ++ trimmedOff sql ++ [' ']).map Journal.blankChar := by
    rw [Journal.sanitizeLine_eq, congrArg (List.map Journal.blankChar) hsql]
    simp only [List.map_append, List.append_assoc]
    rfl
  rw [hline, parses_spaces]
  · rfl
  · intro c hc
    obtain ⟨z, hz, rfl⟩ := List.mem_map.mp hc
    exact blankChar_blanking.isSpace_of (hg z hz)

/-! Journals. -/

structure Entry where
  tsUs : Nat
  db : Text
  sql : Text
  tsUs_lt : tsUs < 2 ^ 64

def journalOf (es : List Entry) : Text :=
  es.foldl (fun file e => Journal.append .all file e.tsUs e.db e.sql) []

theorem read_journalOf (es : List Entry) : Journal.read (journalOf es) =
    es.map fun e => ⟨e.tsUs, Journal.sanitizeLine e.db, Journal.sanitizeLine e.sql⟩ := by
  have hfold : ∀ file : Text, Journal.Complete file →
      Journal.read (es.foldl (fun file e => Journal.append .all file e.tsUs e.db e.sql) file) =
        Journal.read file ++
          es.map fun e => ⟨e.tsUs, Journal.sanitizeLine e.db, Journal.sanitizeLine e.sql⟩ := by
    induction es with
    | nil => exact fun file _ => (List.append_nil _).symm
    | cons e es ih =>
      intro file hfile
      rw [List.foldl_cons, ih _ (Journal.complete_append ..), Journal.read_append hfile e.tsUs_lt,
        List.map_cons, List.append_assoc]
      rfl
  exact hfold [] (.inl rfl)

def Executed (W : World) (sql : Text) : Prop :=
  ∃ (c : Call) (ex : Executor), Reachable W ex ∧ c.request.sql = sql ∧ (c.outcome W ex).ok = true

theorem Executed.parses {W : World} {sql : Text} (h : Executed W sql) :
    ∃ st, Parses (statementText sql ++ [' ']) st := by
  obtain ⟨c, ex, -, rfl, hok⟩ := h
  unfold Call.outcome at hok
  cases hrun : execute W c.ticks c.depth c.request ex with
  | done res ex' =>
    rw [hrun] at hok
    rcases execute_done hrun with ⟨hfail, -⟩ | ⟨_, st, rest, _, -, hparse, -⟩
    · have hres : res.ok = true := hok
      rw [hfail] at hres
      cases hres
    · exact ⟨st, rest, hparse⟩
  | _ =>
    rw [hrun] at hok
    cases hok

/-- The record has the timestamp and the database of the entry and replays as its statement. -/
def ReadsBack (e : Entry) (r : JournalRecord) : Prop :=
  r.tsUs = e.tsUs ∧ r.db = e.db ∧
    ∃ st, Parses (statementText e.sql ++ [' ']) st ∧ Parses (r.sql ++ [' ']) st

/-- The database has no line break and no bar, and the statement is kept on one line. -/
structure Entry.Kept (e : Entry) : Prop where
  db : ∀ c ∈ e.db, c ≠ '\n' ∧ c ≠ '\r' ∧ c ≠ '|'
  sql : ∀ st rest, Parser.parse (statementText e.sql ++ [' ']) = .ok (st, rest) →
    Sql.Kept Journal.blankChar (statementText e.sql) (trimmedOff e.sql) st rest

theorem readsBack_iff {e : Entry} {st : Statement} (h : Parses (statementText e.sql ++ [' ']) st) :
    ReadsBack e ⟨e.tsUs, Journal.sanitizeLine e.db, Journal.sanitizeLine e.sql⟩ ↔ e.Kept := by
  obtain ⟨rest, hparse⟩ := h
  unfold ReadsBack
  constructor
  · rintro ⟨-, hdb, st', hst', hrecord⟩
    refine ⟨Journal.sanitizeLine_eq_self.mp hdb, fun st₂ rest₂ hparse₂ => ?_⟩
    rw [hst'.unique ⟨rest₂, hparse₂⟩] at hrecord
    exact (parses_record_iff hparse₂).mp hrecord
  · intro hkept
    exact ⟨rfl, Journal.sanitizeLine_eq_self.mpr hkept.db, st, ⟨rest, hparse⟩,
      (parses_record_iff hparse).mpr (hkept.sql st rest hparse)⟩

/-- Journaled statements are read back as they were executed exactly if each of them is kept on one
line. -/
theorem journal_replays_iff {W : World} {es : List Entry} (hes : ∀ e ∈ es, Executed W e.sql) :
    List.Forall₂ ReadsBack es (Journal.read (journalOf es)) ↔ ∀ e ∈ es, e.Kept := by
  rw [read_journalOf, List.forall₂_map_right_iff, List.forall₂_same]
  constructor
  · intro h e he
    obtain ⟨st, hst⟩ := (hes e he).parses
    exact (readsBack_iff hst).mp (h e he)
  · intro h e he
    obtain ⟨st, hst⟩ := (hes e he).parses
    exact (readsBack_iff hst).mpr (h e he)

theorem create_ok :
    ((sampleCall 5 " CREATE\nDATABASE d ;").outcome sampleWorld sampleStart).ok = true := by
  decide +kernel

theorem journal_replays_iff_create :
    List.Forall₂ ReadsBack [⟨5, ['d'], " CREATE\nDATABASE d ;".toList, by decide⟩]
        (Journal.read (journalOf [⟨5, ['d'], " CREATE\nDATABASE d ;".toList, by decide⟩])) ↔
      ∀ e ∈ [(⟨5, ['d'], " CREATE\nDATABASE d ;".toList, by decide⟩ : Entry)], e.Kept := by
  apply @journal_replays_iff sampleWorld
  intro e he
  obtain rfl := List.mem_singleton.mp he
  exact ⟨sampleCall 5 " CREATE\nDATABASE d ;", sampleStart, .new .., rfl, create_ok⟩

def barred : Entry := ⟨5, ['d'], "INSERT INTO t (s) VALUE (\"a|b\")".toList, by decide⟩

theorem barred_ok : ((sampleCall 5 "INSERT INTO t (s) VALUE (\"a|b\")").outcome sampleWorld
    (sampleRun ["CREATE DATABASE d", "USE d", "CREATE TABLE t (s STRING)"])).ok = true := by
  decide +kernel

theorem barred_executed : Executed sampleWorld barred.sql :=
  ⟨_, _, sampleRun_reachable _, rfl, barred_ok⟩

theorem parse_barred : Parser.parse (statementText barred.sql ++ [' ']) =
    .ok (.insert ⟨[], ['t']⟩ [['s']] [[.string "a|b".toList]], [' ']) := by decide +kernel

theorem journal_not_replayed : ¬∀ es : List Entry, (∀ e ∈ es, Executed sampleWorld e.sql) →
    List.Forall₂ ReadsBack es (Journal.read (journalOf es)) := by
  intro h
  have hread := h [barred] fun e he => List.mem_singleton.mp he ▸ barred_executed
  rw [read_journalOf] at hread
  cases hread with
  | cons hback _ =>
    have hkept := ((readsBack_iff ⟨_, parse_barred⟩).mp hback).sql _ _ parse_barred
    have hstring := hkept.strings
    revert hstring
    decide

end Dbms.Exec
