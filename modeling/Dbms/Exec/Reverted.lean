import Dbms.Exec.Journals
import Dbms.Exec.Replayed
import Dbms.Exec.Sound
import Dbms.Sql.Created

/-! What REVERT does with the journals that a run has written. -/

open Dbms.Core Dbms.Lib Dbms.Sql Dbms.Sql.Lexer

namespace Dbms.Exec

section
variable {W : World} {ticks : List Nat → Tick} {tick : Tick} {allow : Bool} {ex ex' : Executor}
  {st : Statement} {cs : List Call} {c : Call} {d sql rest : Text} {db : Database}

theorem createDatabase_record
    (h : Parser.parse (statementText sql ++ [' ']) = .ok (.createDatabase d, rest)) :
    Journal.sanitizeLine d = d ∧ ∀ st r,
      Parser.parse (Journal.sanitizeLine sql ++ [' ']) = .ok (st, r) → st = .createDatabase d := by
  obtain ⟨hst, -⟩ := Parser.parse_eq_ok.mp h
  constructor
  · obtain ⟨a, b, t, ⟨-, -, ht, -⟩, -, -, hkind, rfl⟩ := statement_createDatabase hst
    rw [ht] at hkind ⊢
    refine Journal.sanitizeLine_eq_self.mpr fun c hc => ?_
    have hkeep := blankChar_blanking.keeps c (.inl ?_)
    · rw [← hkeep]
      exact Journal.blankChar_ne c
    · rcases next_ident_chars hkind c hc with h | h
      · simp [isSolid, isGlue, h]
      · simp [isSolid, glue_of_stamp h]
  · intro st r hr
    have hne : statementText sql ≠ [] := by
      intro hempty
      rw [hempty] at h
      cases h
    obtain ⟨g, hsql, hg, hpost⟩ := trimmedOff_spec hne
    have hline : Journal.sanitizeLine sql ++ [' '] = g.map Journal.blankChar ++
        (statementText sql ++ trimmedOff sql ++ [' ']).map Journal.blankChar := by
      rw [Journal.sanitizeLine_eq, congrArg (List.map Journal.blankChar) hsql]
      simp only [List.map_append, List.append_assoc]
      rfl
    have hspaces : ∀ c ∈ g.map Journal.blankChar, isSpace c = true := by
      intro c hc
      obtain ⟨z, hz, rfl⟩ := List.mem_map.mp hc
      exact blankChar_blanking.isSpace_of (hg z hz)
    rw [hline] at hr
    obtain ⟨r', hr'⟩ := (parses_spaces hspaces).mp ⟨r, hr⟩
    exact line_createDatabase blankChar_blanking hpost (fun c => (Journal.blankChar_ne c).1) hst
      (Parser.parse_eq_ok.mp hr').1

/-- The journal of a database begins with its creation, and the rest of it is later. -/
structure Begun (ex : Executor) (d : Text) (r : JournalRecord) : Prop where
  read : ∃ rs, Journal.read (ex.files (ex.journalPathFor d)) = r :: rs ∧ ∀ e ∈ rs, r.tsUs < e.tsUs
  db : r.db = d
  sql : ∀ st rest, Parser.parse (r.sql ++ [' ']) = .ok (st, rest) → st = .createDatabase d

section
variable {exec : Nat → Statement → Executor → Outcome} {ts i : Nat} {r : JournalRecord}
  {recs : List JournalRecord}

/-- The creation of a database that exists cannot be replayed. -/
theorem replay_created {held : Held} (exec : Nat → Statement → Executor → Outcome) (i : Nat)
    (recs : List JournalRecord) (halive : ex.catalog.Alive held.key held.id)
    (hdb : r.db = held.name) (hts : r.tsUs ≤ ts)
    (hsql : ∀ st rest, Parser.parse (r.sql ++ [' ']) = .ok (st, rest) → st = .createDatabase d)
    (hexec : ∃ res, exec i (.createDatabase d) ex = .done res ex ∧ res.ok = false) :
    (replay exec held ts i (r :: recs) ex).ok = false ∧
      (replay exec held ts i (r :: recs) ex).state = ex := by
  rw [replay, if_neg (not_not.mpr halive), if_neg (by simp [hdb, Nat.not_lt.mpr hts])]
  cases hparse : Parser.parse (r.sql ++ [' ']) with
  | error e => cases e <;> exact ⟨rfl, rfl⟩
  | ok p =>
    obtain ⟨st, rest⟩ := p
    obtain rfl := hsql st rest hparse
    obtain ⟨res, hres, hok⟩ := hexec
    simp only [hres, hok]
    exact ⟨hok, rfl⟩

theorem execStatement_revert {n : Nat} {path : List Nat} {hint : Name} {src : Text}
    {p : Held × Nat × List JournalRecord × Executor}
    (hcur : ex.catalog.current = some db) (hname : db.name = ex.catalog.current_)
    (hbegun : Begun ex db.name r) (hp : prepareRevert (ticks path) allow hint src ex = .ok p) :
    (execStatement W ticks n path (.revert hint src) allow ex).state =
        { ex with catalog := ex.catalog.setDatabase db.name { db with tables := ∅ } } ∧
      (n ≠ 0 → ((execStatement W ticks n path (.revert hint src) allow ex).ok = true ↔
        ∃ t, parseTsString src = .ok t ∧ t < r.tsUs)) := by
  obtain ⟨held, t, recs, ex'⟩ := p
  obtain ⟨db', -, hcur', hts, -, rfl, rfl, rfl⟩ := prepareRevert_ok hp
  obtain rfl : db = db' := Option.some.inj (hcur.symm.trans hcur')
  obtain ⟨rs, hread, hlate⟩ := hbegun.read
  obtain ⟨l, hsort, hsorted⟩ := (ticks path).sortRecs.sort_head hlate
  rw [dropTables_eq, ← hname] at hp
  have halive := prepareRevert_alive hp
  set ex₁ : Executor :=
    { ex with catalog := ex.catalog.setDatabase db.name { db with tables := ∅ } } with hex₁
  have hmem : db.name ∈ ex₁.catalog.dbs := Finmap.mem_insert.mpr (.inl rfl)
  set held : Held := ⟨db.name, db.id, db.name⟩
  cases n with
  | zero =>
    rw [execStatement, hp]
    exact ⟨rfl, fun h => absurd rfl h⟩
  | succ n =>
    rw [execStatement, hp]
    simp only [hread, hsort]
    -- Before its creation there is nothing to replay; later the first record is that, and it fails.
    by_cases ht : t < r.tsUs
    · rw [replay_early halive (List.forall_mem_cons.mpr
        ⟨fun _ => ht, fun e he _ => ht.trans_le (hsorted e he)⟩)]
      exact ⟨rfl, fun _ => iff_of_true rfl ⟨t, hts, ht⟩⟩
    · have hexists : execStatement W ticks n (path ++ [0]) (.createDatabase db.name) true ex₁ =
          .done (.failed ("database already exists: ".toList ++ db.name)) ex₁ := by
        rw [execStatement_simple rfl]
        show Outcome.done (execCreateDatabase true ex₁ db.name).1
          (execCreateDatabase true ex₁ db.name).2 = _
        unfold execCreateDatabase ifAllowed Catalog.createDatabase
        rw [if_pos rfl, if_pos hmem]
      obtain ⟨hfail, hstate⟩ := @replay_created _ db.name t r held
        (fun i st ex => execStatement W ticks n (path ++ [i]) st true ex) 0 l halive hbegun.db
        (Nat.le_of_not_lt ht) hbegun.sql ⟨_, hexists, rfl⟩
      refine ⟨hstate, fun _ => iff_of_false (by simp [hfail]) ?_⟩
      rintro ⟨t', hts', ht'⟩
      obtain rfl := Except.ok.inj (hts.symm.trans hts')
      exact ht ht'

theorem outcome_revert {hint : Name} {src : Text}
    (hparse : Parser.parse (statementText c.request.sql ++ [' ']) = .ok (.revert hint src, rest))
    (hname : ∀ db, ex.catalog.current = some db → db.name = ex.catalog.current_)
    (hbegun : ∀ db, ex.catalog.current = some db → ∃ r, Begun ex db.name r) :
    ∃ u, ((c.outcome W ex).ok = false ∧ (c.outcome W ex).state = { ex with rbacUser := u }) ∨
      ∃ db r, ex.catalog.current = some db ∧ Begun ex db.name r ∧
        (c.outcome W ex).state = { ex with
          rbacUser := u, catalog := ex.catalog.setDatabase db.name { db with tables := ∅ } } ∧
        (c.depth ≠ 0 → ((c.outcome W ex).ok = true ↔
          ∃ t, parseTsString src = .ok t ∧ t < r.tsUs)) := by
  unfold Call.outcome execute
  cases hauth : authenticate W c.ticks c.request.jwt ex with
  | error e => cases e <;> exact ⟨ex.rbacUser, .inl ⟨rfl, rfl⟩⟩
  | ok ex₁ =>
    obtain ⟨u, rfl⟩ := authenticate_state hauth
    refine ⟨u, ?_⟩
    simp only [hparse]
    cases hgate : forbidden { ex with rbacUser := u } (.revert hint src) with
    | some m => exact .inl ⟨rfl, rfl⟩
    | none =>
      cases hp : prepareRevert (c.ticks []) c.request.allowMutations hint src
          { ex with rbacUser := u } with
      | error err =>
        rw [execStatement, hp]
        exact .inl ⟨rfl, rfl⟩
      | ok p =>
        obtain ⟨db, -, hcur, -⟩ := prepareRevert_ok hp
        obtain ⟨r, hr⟩ := hbegun db hcur
        have hrun := execStatement_revert (W := W) (n := c.depth) hcur (hname db hcur)
          ⟨hr.read, hr.db, hr.sql⟩ hp
        refine .inr ⟨db, r, hcur, hr, ?_⟩
        dsimp only
        rw [conclude_revert]
        exact hrun

theorem outcome_simple (W : World) (ex : Executor)
    (hparse : Parser.parse (statementText c.request.sql ++ [' ']) = .ok (st, rest))
    (hst : isRevert st = false) (hfile : (c.ticks []).journal ≠ none) :
    ((c.outcome W ex).ok = false ∧ (c.outcome W ex).state.catalog = ex.catalog) ∨
      ∃ e : Execution, e.statement = st ∧ (∃ u, e.before = { ex with rbacUser := u }) ∧
        (c.outcome W ex).ok = (execSimple W e.tick e.allow e.before st).1.ok ∧
        (c.outcome W ex).state.catalog = (e.after W).catalog := by
  unfold Call.outcome execute
  cases hauth : authenticate W c.ticks c.request.jwt ex with
  | error e => cases e <;> exact .inl ⟨rfl, rfl⟩
  | ok ex₁ =>
    obtain ⟨u, rfl⟩ := authenticate_state hauth
    simp only [hparse]
    cases hgate : forbidden { ex with rbacUser := u } st with
    | some m => exact .inl ⟨rfl, rfl⟩
    | none =>
      refine .inr ⟨⟨st, c.request.allowMutations, c.ticks [], { ex with rbacUser := u }⟩, rfl,
        ⟨u, rfl⟩, ?_⟩
      dsimp only
      rw [execStatement_simple hst, after_simple hst]
      obtain ⟨files, h⟩ | ⟨⟨-, -, hnone⟩, -⟩ := conclude_done c.ticks c.request _ st
        (execSimple W (c.ticks []) c.request.allowMutations { ex with rbacUser := u } st).1 _
      · rw [h]
        exact ⟨rfl, rfl⟩
      · exact absurd hnone hfile

theorem outcome_unparsed {e : ParseErr}
    (hparse : Parser.parse (statementText c.request.sql ++ [' ']) = .error e) :
    (c.outcome W ex).state.catalog = ex.catalog := by
  unfold Call.outcome execute
  cases hauth : authenticate W c.ticks c.request.jwt ex with
  | error e => cases e <;> rfl
  | ok ex₁ =>
    obtain ⟨u, rfl⟩ := authenticate_state hauth
    simp only [hparse]
    cases e <;> rfl

theorem mem_setDatabase {cat : Catalog} {key : Text} (hkey : key ∈ cat.dbs)
    (hd : d ∈ (cat.setDatabase key db).dbs) : d ∈ cat.dbs := by
  rcases Finmap.mem_insert.mp hd with rfl | hd
  · exact hkey
  · exact hd

theorem after_creates {e : Execution} (hd : d ∈ (e.after W).catalog.dbs)
    (hnew : d ∉ e.before.catalog.dbs) : e.statement = .createDatabase d := by
  cases (after_effect (W := W) e).1 with
  | same hcat | used _ _ _ hcat =>
    rw [hcat] at hd
    exact absurd hd hnew
  | created name hst _ hcat =>
    rw [hcat] at hd
    rcases Finmap.mem_insert.mp hd with rfl | hd
    · exact hst
    · exact absurd hd hnew
  | dropped name _ hcat =>
    rw [hcat] at hd
    exact absurd (Finmap.mem_erase.mp hd).2 hnew
  | added _ _ key _ _ hres _ _ hcat | removed _ key _ _ hres hcat =>
    rw [hcat] at hd
    have hkey := Finmap.mem_of_lookup_eq_some (resolveDatabase_lookup hres)
    exact absurd (mem_setDatabase hkey hd) hnew
  | turned _ key _ _ _ _ hres _ _ hcat =>
    rw [hcat] at hd
    have hkey := Finmap.mem_of_lookup_eq_some (resolveDatabase_lookup (resolveTable_ok hres).1)
    exact absurd (mem_setDatabase hkey hd) hnew
  | cleared _ _ db _ _ hcur hcat =>
    rw [hcat] at hd
    have hkey := Finmap.mem_of_lookup_eq_some (current_eq_some.mp hcur).2
    exact absurd (mem_setDatabase hkey hd) hnew

theorem outcome_creates {n : Nat} (hsound : Sound n ex)
    (hbegun : ∀ db, ex.catalog.current = some db → ∃ r, Begun ex db.name r)
    (hfile : (c.ticks []).journal ≠ none) (hd : d ∈ (c.outcome W ex).state.catalog.dbs)
    (hnew : d ∉ ex.catalog.dbs) :
    (c.outcome W ex).ok = true ∧
      ∃ rest, Parser.parse (statementText c.request.sql ++ [' ']) = .ok (.createDatabase d, rest) := by
  cases hparse : Parser.parse (statementText c.request.sql ++ [' ']) with
  | error e =>
    rw [outcome_unparsed hparse] at hd
    exact absurd hd hnew
  | ok p =>
    obtain ⟨st, rest⟩ := p
    cases hst : isRevert st with
    | true =>
      cases st with
      | revert hint src =>
        have hname : ∀ db, ex.catalog.current = some db → db.name = ex.catalog.current_ := fun db hcur =>
          (hsound.databases _ db (current_eq_some.mp hcur).2).name
        obtain ⟨u, ⟨-, hstate⟩ | ⟨db, r, hcur, -, hstate, -⟩⟩ := outcome_revert hparse hname hbegun
        · rw [hstate] at hd
          exact absurd hd hnew
        · rw [hstate] at hd
          have hkey := Finmap.mem_of_lookup_eq_some (current_eq_some.mp hcur).2
          rw [← hname db hcur] at hkey
          exact absurd (mem_setDatabase hkey hd) hnew
      | _ => cases hst
    | false =>
      rcases outcome_simple W ex hparse hst hfile with
        ⟨-, hcat⟩ | ⟨e, rfl, ⟨u, hbefore⟩, hok, hcat⟩
      · rw [hcat] at hd
        exact absurd hd hnew
      · rw [hcat] at hd
        have hnew' : d ∉ e.before.catalog.dbs := by rwa [hbefore]
        have hcreate := after_creates hd hnew'
        refine ⟨?_, rest, by rw [hcreate]⟩
        rw [hok]
        obtain ⟨st, allow, tick, before⟩ := e
        obtain rfl : st = .createDatabase d := hcreate
        cases allow with
        | false => exact absurd hd hnew'
        | true =>
          show (execCreateDatabase true before d).1.ok = true
          unfold execCreateDatabase ifAllowed Catalog.createDatabase
          rw [if_pos rfl, if_neg hnew']
          rfl

theorem record_eq {r : JournalRecord} (h : c.record W ex = some r) : ∃ st rest,
    Parser.parse (statementText c.request.sql ++ [' ']) = .ok (st, rest) ∧
      (c.outcome W ex).ok = true ∧ isRevert st = false ∧
      r = ⟨(c.ticks []).nowUs, journalDb ex.catalog (c.outcome W ex).state.catalog st,
        c.request.sql⟩ ∧ r.db ≠ [] := by
  unfold Call.record at h
  split at h
  · cases h
  rename_i st rest hparse
  dsimp only at h
  split at h
  · rename_i hw
    cases h
    simp only [Bool.and_eq_true, Bool.not_eq_true', decide_eq_true_eq] at hw
    exact ⟨st, rest, hparse, hw.1.1.1.1, hw.1.2, rfl, hw.2⟩
  · cases h

theorem record_db {n : Nat} {r : JournalRecord} (hsound : Sound n ex)
    (hfile : (c.ticks []).journal ≠ none) (h : c.record W ex = some r) :
    r.db ∈ ex.catalog.dbs ∨
      ∃ rest, Parser.parse (statementText c.request.sql ++ [' ']) = .ok (.createDatabase r.db, rest) := by
  obtain ⟨st, rest, hparse, hok, hst, rfl, hne⟩ := record_eq h
  rcases outcome_simple W ex hparse hst hfile with ⟨hfail, -⟩ |
    ⟨e, rfl, ⟨u, hbefore⟩, -, hcat⟩
  · rw [hfail] at hok
    cases hok
  by_cases hcreate : ∃ name, e.statement = .createDatabase name
  · obtain ⟨name, hname⟩ := hcreate
    rw [hname] at hparse ⊢
    exact .inr ⟨rest, hparse⟩
  have hafter : Sound (n + tuples e.statement) (e.after W) :=
    after_sound e (parse_plainColumns _ _ _ hparse) (by
      rw [hbefore]
      exact ⟨hsound.current, hsound.databases⟩)
  refine .inl ?_
  rw [hcat] at hne ⊢
  unfold journalDb at hne ⊢
  split at hne
  · rename_i name hname
    exact absurd ⟨name, hname⟩ hcreate
  cases hcur : (e.after W).catalog.current with
  | some cur =>
    rw [hcur] at hne
    obtain ⟨-, hlookup⟩ := current_eq_some.mp hcur
    have hname := (hafter.databases _ cur hlookup).name
    have hmem := Finmap.mem_of_lookup_eq_some hlookup
    rw [← hname] at hmem
    by_contra hno
    refine hcreate ⟨cur.name, after_creates hmem ?_⟩
    rwa [hbefore]
  | none =>
    rw [hcur] at hne
    cases hold : ex.catalog.current with
    | none =>
      rw [hold] at hne
      exact absurd rfl hne
    | some cur =>
      obtain ⟨-, hlookup⟩ := current_eq_some.mp hold
      have hmem := Finmap.mem_of_lookup_eq_some hlookup
      rwa [← (hsound.databases _ cur hlookup).name] at hmem

theorem records_append (cs cs' : List Call) (ex : Executor) :
    records W (cs ++ cs') ex = records W cs ex ++ records W cs' (runAll W cs ex) := by
  induction cs generalizing ex with
  | nil => rfl
  | cons c cs ih => simp only [List.cons_append, records, runAll, ih, List.append_assoc]

/-- The times of the records are among those of the calls. -/
theorem records_times (cs : List Call) (ex : Executor) :
    ((records W cs ex).map JournalRecord.tsUs).Sublist (cs.map fun c => (c.ticks []).nowUs) := by
  induction cs generalizing ex with
  | nil => exact .slnil
  | cons c cs ih =>
    rw [records, List.map_append, List.map_cons]
    cases hrecord : c.record W ex with
    | none => exact (ih _).cons _
    | some r =>
      obtain ⟨st, rest, -, -, -, rfl, -⟩ := record_eq hrecord
      exact (ih _).cons_cons _

end
end

section
variable {W : World} {salt : Auth.Bytes} {dataDir : Text} {pool : StringPool} {cs : List Call}
  {c : Call} {d rest : Text} {ex₀ : Executor}

def recordsOf (W : World) (cs : List Call) (ex : Executor) (d : Text) : List JournalRecord :=
  (records W cs ex).filter fun r => r.db = d

/-- The clock goes on from call to call, journals are not skipped and written in full, and there are
none before. -/
structure Journaled (cs : List Call) (ex : Executor) : Prop where
  files : ∀ d, ex.files (ex.journalPathFor d) = []
  fresh : ex.catalog = .empty
  clock : (cs.map fun c => (c.ticks []).nowUs).Pairwise (· < ·)
  bound : ∀ c ∈ cs, (c.ticks []).nowUs < 2 ^ 64
  skip : ∀ c ∈ cs, c.request.skipJournal = false
  written : ∀ c ∈ cs, (c.ticks []).journal = some .all

theorem Journaled.init {cs' : List Call} (h : Journaled (cs ++ cs') ex₀) : Journaled cs ex₀ where
  files := h.files
  fresh := h.fresh
  clock := by
    have hclock := h.clock
    rw [List.map_append] at hclock
    exact (List.pairwise_append.mp hclock).1
  bound c hc := h.bound c (List.mem_append_left _ hc)
  skip c hc := h.skip c (List.mem_append_left _ hc)
  written c hc := h.written c (List.mem_append_left _ hc)

theorem Journaled.sound (h : Journaled cs ex₀) : ∃ n, Sound n (runAll W cs ex₀) := by
  have hnew : Sound 0 ex₀ := by
    constructor
    · rw [h.fresh]
      exact .inl rfl
    · rw [h.fresh]
      exact fun d db hd => by cases hd
  exact ⟨_, run_sound cs hnew⟩

/-- Each journal begins with the creation of its database. -/
structure CreatedFirst (W : World) (cs : List Call) (ex : Executor) : Prop where
  first : ∀ d r rs, recordsOf W cs ex d = r :: rs → ∃ rest,
    Parser.parse (statementText r.sql ++ [' ']) = .ok (.createDatabase d, rest)
  begun : ∀ d, d ≠ [] → d ∈ (runAll W cs ex).catalog.dbs → recordsOf W cs ex d ≠ []

theorem CreatedFirst.begins (h : CreatedFirst W cs ex₀) (hcs : Journaled cs ex₀) (hne : d ≠ [])
    (hd : d ∈ (runAll W cs ex₀).catalog.dbs) : ∃ r rs, recordsOf W cs ex₀ d = r :: rs ∧
      Begun (runAll W cs ex₀) d (sanitized r) := by
  cases hrecords : recordsOf W cs ex₀ d with
  | nil => exact absurd hrecords (h.begun d hne hd)
  | cons r rs =>
    refine ⟨r, rs, rfl, ?_⟩
    obtain ⟨rest, hparse⟩ := h.first d r rs hrecords
    obtain ⟨hname, hsql⟩ := createDatabase_record hparse
    have hmem : r ∈ recordsOf W cs ex₀ d := by
      rw [hrecords]
      exact List.mem_cons_self
    have hdb : r.db = d := of_decide_eq_true (List.mem_filter.mp hmem).2
    refine ⟨⟨rs.map sanitized, ?_, fun e he => ?_⟩, ?_, hsql⟩
    · have hread := read_run (W := W) hcs.written hcs.bound (d := d) (.inl (hcs.files d))
      have hpath : (runAll W cs ex₀).journalPathFor d = ex₀.journalPathFor d := by
        unfold Executor.journalPathFor
        rw [(run_files hcs.written ex₀).1]
      rw [hpath, hread, hcs.files d]
      show Journal.read [] ++ (recordsOf W cs ex₀ d).map sanitized = _
      rw [hrecords]
      rfl
    · obtain ⟨r', hr', rfl⟩ := List.mem_map.mp he
      have htimes : ((recordsOf W cs ex₀ d).map JournalRecord.tsUs).Pairwise (· < ·) :=
        hcs.clock.sublist ((List.filter_sublist.map _).trans (records_times cs ex₀))
      rw [hrecords, List.map_cons, List.pairwise_cons] at htimes
      exact htimes.1 r'.tsUs (List.mem_map_of_mem (f := JournalRecord.tsUs) hr')
    · show Journal.sanitizeLine r.db = d
      rw [hdb, hname]

theorem Journaled.createdFirst (h : Journaled cs ex₀) : CreatedFirst W cs ex₀ := by
  induction cs using List.reverseRecOn with
  | nil =>
    refine ⟨nofun, fun d _ hd => ?_⟩
    rw [show runAll W [] ex₀ = ex₀ from rfl, h.fresh] at hd
    cases hd
  | append_singleton cs c ih =>
    have hinit := h.init
    have hold := ih hinit
    have hfile : (c.ticks []).journal ≠ none := by simp [h.written c (by simp)]
    obtain ⟨n, hsound⟩ := hinit.sound (W := W)
    have hsplit : ∀ d, recordsOf W (cs ++ [c]) ex₀ d = recordsOf W cs ex₀ d ++
        (c.record W (runAll W cs ex₀)).toList.filter fun r => r.db = d := by
      intro d
      simp only [recordsOf, records_append, records, List.filter_append, List.append_nil]
    -- A database of the new state was there before, or the last call has made it and put its
    -- creation down; the journal it had then was empty.
    have hbegun : ∀ db, (runAll W cs ex₀).catalog.current = some db →
        ∃ r, Begun (runAll W cs ex₀) db.name r := by
      intro db hcur
      obtain ⟨hne, hlookup⟩ := current_eq_some.mp hcur
      rw [(hsound.databases _ db hlookup).name]
      obtain ⟨r, rs, -, hr⟩ := hold.begins hinit hne (Finmap.mem_of_lookup_eq_some hlookup)
      exact ⟨_, hr⟩
    constructor
    · intro d r rs hr
      rw [hsplit] at hr
      cases hbefore : recordsOf W cs ex₀ d with
      | cons r' rs' =>
        rw [hbefore] at hr
        obtain ⟨rfl, -⟩ := List.cons.inj hr
        exact hold.first d _ rs' hbefore
      | nil =>
        rw [hbefore, List.nil_append] at hr
        have hmem : r ∈ (c.record W (runAll W cs ex₀)).toList.filter fun r => r.db = d := by
          rw [hr]
          exact List.mem_cons_self
        obtain ⟨hrecord, hdb⟩ := List.mem_filter.mp hmem
        obtain rfl : r.db = d := of_decide_eq_true hdb
        have hrecord' := Option.mem_toList.mp hrecord
        obtain ⟨st, rest, -, -, -, hr', hne⟩ := record_eq hrecord'
        rcases record_db hsound hfile hrecord' with hmem | ⟨rest, hparse⟩
        · exact absurd hbefore (hold.begun _ hne hmem)
        · refine ⟨rest, ?_⟩
          rwa [show r.sql = c.request.sql by rw [hr']]
    · intro d hne hd
      rw [runAll_append] at hd
      rw [hsplit]
      by_cases hmem : d ∈ (runAll W cs ex₀).catalog.dbs
      · exact List.append_ne_nil_of_left_ne_nil (hold.begun d hne hmem) _
      · obtain ⟨hok, rest, hparse⟩ := outcome_creates hsound hbegun hfile hd hmem
        refine List.append_ne_nil_of_right_ne_nil _ ?_
        unfold Call.record
        rw [hparse]
        simp [hok, isMutating, isRevert, journalDb, hne, h.skip c (by simp)]

/-- After a run from a new data directory, with a clock that goes on, REVERT never brings a table back:
if it is not refused, the current database has no tables afterwards and nothing else has changed, and
it is answered with `ok` only for times before the database was created. -/
theorem run_reverts {hint : Name} {src : Text} (h : Journaled cs ex₀)
    (hparse : Parser.parse (statementText c.request.sql ++ [' ']) = .ok (.revert hint src, rest)) :
    ∃ u, ((c.outcome W (runAll W cs ex₀)).ok = false ∧ (c.outcome W (runAll W cs ex₀)).state =
        { runAll W cs ex₀ with rbacUser := u }) ∨
      ∃ db r rs, (runAll W cs ex₀).catalog.current = some db ∧ recordsOf W cs ex₀ db.name = r :: rs ∧
        (∃ rest, Parser.parse (statementText r.sql ++ [' ']) = .ok (.createDatabase db.name, rest)) ∧
        (c.outcome W (runAll W cs ex₀)).state = { runAll W cs ex₀ with
          rbacUser := u
          catalog := (runAll W cs ex₀).catalog.setDatabase db.name { db with tables := ∅ } } ∧
        (c.depth ≠ 0 → ((c.outcome W (runAll W cs ex₀)).ok = true ↔
          ∃ t, parseTsString src = .ok t ∧ t < r.tsUs)) := by
  obtain ⟨n, hsound⟩ := h.sound (W := W)
  have hfirst := h.createdFirst (W := W)
  have hname : ∀ db, (runAll W cs ex₀).catalog.current = some db →
      db.name = (runAll W cs ex₀).catalog.current_ := fun db hcur =>
    (hsound.databases _ db (current_eq_some.mp hcur).2).name
  have hbegins : ∀ db, (runAll W cs ex₀).catalog.current = some db →
      ∃ r rs, recordsOf W cs ex₀ db.name = r :: rs ∧
        Begun (runAll W cs ex₀) db.name (sanitized r) := by
    intro db hcur
    obtain ⟨hne, hlookup⟩ := current_eq_some.mp hcur
    rw [hname db hcur]
    exact hfirst.begins h hne (Finmap.mem_of_lookup_eq_some hlookup)
  have hbegun : ∀ db, (runAll W cs ex₀).catalog.current = some db →
      ∃ r, Begun (runAll W cs ex₀) db.name r := by
    intro db hcur
    obtain ⟨r, rs, -, hr⟩ := hbegins db hcur
    exact ⟨_, hr⟩
  obtain ⟨u, hrefused | ⟨db, r', hcur, hr', hstate, hok⟩⟩ := outcome_revert hparse hname hbegun
  · exact ⟨u, .inl hrefused⟩
  · obtain ⟨r, rs, hrecords, hr⟩ := hbegins db hcur
    obtain rfl : r' = sanitized r := by
      obtain ⟨l, hl, -⟩ := hr.read
      obtain ⟨l', hl', -⟩ := hr'.read
      exact (List.cons.inj (hl'.symm.trans hl)).1
    exact ⟨u, .inr ⟨db, r, rs, hcur, hrecords, hfirst.first _ r rs hrecords, hstate, hok⟩⟩

end

def oneTable : List Call := [sampleCall 5 "CREATE DATABASE d", sampleCall 6 "USE d",
  sampleCall 7 "CREATE TABLE t (id INT INDEXED)"]

def revertTable : Call := sampleCall 8 "REVERT t 1970.01.01-00:00:00.3"

theorem revertTable_ok :
    (revertTable.outcome sampleWorld (runAll sampleWorld oneTable sampleStart)).ok = true ∧
      Parser.parse (statementText revertTable.request.sql ++ [' ']) =
        .ok (.revert ⟨[], ['t']⟩ "1970.01.01-00:00:00.3".toList, [' ']) := by decide +kernel

theorem oneTable_journaled : Journaled oneTable sampleStart where
  files _ := rfl
  fresh := rfl
  clock := by decide
  bound := by decide
  skip := by decide
  written := by decide

theorem run_reverts_oneTable :
    ∃ u db, (runAll sampleWorld oneTable sampleStart).catalog.current = some db ∧
      (revertTable.outcome sampleWorld (runAll sampleWorld oneTable sampleStart)).state =
        { runAll sampleWorld oneTable sampleStart with
          rbacUser := u
          catalog := (runAll sampleWorld oneTable sampleStart).catalog.setDatabase db.name
            { db with tables := ∅ } } := by
  obtain ⟨hok, hparse⟩ := revertTable_ok
  obtain ⟨u, ⟨hrefused, -⟩ | ⟨db, r, rs, hcur, -, -, hstate, -⟩⟩ :=
    run_reverts oneTable_journaled hparse
  · rw [hok] at hrefused
    cases hrefused
  · exact ⟨u, db, hcur, hstate⟩

end Dbms.Exec
