import Dbms.Core.Relation
import Dbms.Exec.Effect
import Dbms.Sql.Defaults

/-! The databases after any run: they are stored under their names, and each table is as its own
operations make it. -/

open Dbms.Core Dbms.Lib Dbms.Sql Dbms.Auth

namespace Dbms.Exec

structure TableSound (n : Nat) (pool : StringPool) (tn : Text) (t : Table) : Prop where
  name : t.name = tn
  reach : ∃ m ≤ n, Table.Reach m pool t
  defaults : DefaultsInterned pool t.cols

structure DatabaseSound (n : Nat) (pool : StringPool) (d : Text) (db : Database) : Prop where
  name : db.name = d
  tables : ∀ tn t, db.tables.lookup tn = some t → TableSound n pool tn t

/-- What holds after a run that inserts at most `n` tuples. -/
structure Sound (n : Nat) (ex : Executor) : Prop where
  current : ex.catalog.current_ = [] ∨ ex.catalog.current_ ∈ ex.catalog.dbs
  databases : ∀ d db, ex.catalog.dbs.lookup d = some db → DatabaseSound n ex.pool d db

section
variable {n m : Nat} {pool p : StringPool} {tn d key : Text} {t : Table} {db : Database}
  {ex ex' : Executor} {st : Statement} {W : World} {A : Text → Prop}

theorem TableSound.mono (h : TableSound n pool tn t) (hm : n ≤ m) (hp : StringPool.Grows A pool p) :
    TableSound m p tn t := by
  obtain ⟨k, hk, hreach⟩ := h.reach
  exact ⟨h.name, ⟨k, hk.trans hm, hreach.grows hp⟩, h.defaults.extends hp.extends⟩

theorem DatabaseSound.mono (h : DatabaseSound n pool d db) (hm : n ≤ m)
    (hp : StringPool.Grows A pool p) :
    DatabaseSound m p d db :=
  ⟨h.name, fun tn t ht => (h.tables tn t ht).mono hm hp⟩

theorem TableSound.turned (h : TableSound n pool tn t) : Turned t.cols n ⟨t, pool, []⟩ :=
  ⟨h.reach, rfl, h.defaults⟩

theorem internDefaults_interned {cs : List ColumnDef} (hcs : ∀ c ∈ cs, PlainDefault c)
    (pool : StringPool) : DefaultsInterned (internDefaults cs pool).2 (internDefaults cs pool).1 := by
  induction cs generalizing pool with
  | nil => exact fun c hc => by cases hc
  | cons c cs ih =>
    obtain ⟨hc, hcs⟩ := List.forall_mem_cons.mp hcs
    unfold internDefaults
    cases hs : c.defaultStr with
    | none =>
      refine List.forall_mem_cons.mpr ⟨⟨hs, fun v hv => ?_⟩, ih hcs pool⟩
      cases v with
      | null | int => trivial
      | string id => exact absurd hv (hc id)
    | some str =>
      refine List.forall_mem_cons.mpr ⟨⟨rfl, fun v hv => ?_⟩, ih hcs _⟩
      obtain rfl := Option.some.inj hv
      have hid : Value.Interned (pool.intern str).2 (.string (pool.intern str).1) :=
        pool.intern_lt str
      exact hid.extends (internDefaults_grows (A := fun _ => True) (fun _ _ _ _ => trivial) _).extends

theorem mem_foldl_dropIgnoring (names : List Text) (db : Database) (tn : Text) :
    (names.foldl dropIgnoring db).tables.lookup tn =
      if tn ∈ names then none else db.tables.lookup tn := by
  induction names generalizing db with
  | nil => rfl
  | cons name names ih =>
    rw [List.foldl_cons, ih]
    by_cases hmem : tn ∈ names
    · simp [hmem]
    by_cases htn : tn = name
    · subst htn
      simp only [hmem, if_false, List.mem_cons, true_or, if_true]
      unfold dropIgnoring Database.dropTable
      by_cases htable : tn ∈ db.tables
      · rw [if_pos htable]
        exact Finmap.lookup_erase ..
      · rw [if_neg htable]
        exact Finmap.lookup_eq_none.mpr htable
    · simp only [hmem, if_false, List.mem_cons, htn, or_self]
      unfold dropIgnoring Database.dropTable
      by_cases htable : name ∈ db.tables
      · rw [if_pos htable]
        exact Finmap.lookup_erase_ne htn
      · rw [if_neg htable]

theorem dropTables_eq (o : HashOrder Text) (db : Database) :
    dropTables o db = { db with tables := ∅ } := by
  have htables : (dropTables o db).tables = ∅ := by
    refine Finmap.ext_lookup fun tn => ?_
    unfold dropTables
    rw [mem_foldl_dropIgnoring]
    by_cases htn : tn ∈ db.tables
    · rw [if_pos ((o.mem_toList _ _).mpr (Finmap.mem_keys.mpr htn))]
      rfl
    · rw [if_neg (mt (fun h => Finmap.mem_keys.mp ((o.mem_toList _ _).mp h)) htn),
        Finmap.lookup_eq_none.mpr htn]
      rfl
  obtain ⟨hname, hid⟩ := dropTables_same o db
  cases hdrop : dropTables o db
  rw [hdrop] at htables hname hid
  subst htables hname hid
  rfl

theorem DatabaseSound.dropTables (h : DatabaseSound n pool d db) (o : HashOrder Text) :
    DatabaseSound n pool d (dropTables o db) := by
  rw [dropTables_eq]
  exact ⟨h.name, fun tn t ht => by cases ht⟩

theorem DatabaseSound.setTable (h : DatabaseSound n pool d db) (ht : TableSound n pool tn t) :
    DatabaseSound n pool d (db.setTable tn t) := by
  refine ⟨h.name, fun tn' t' ht' => ?_⟩
  by_cases htn : tn' = tn
  · subst htn
    obtain rfl := Option.some.inj ((Finmap.lookup_insert _).symm.trans ht')
    exact ht
  · exact h.tables tn' t' ((Finmap.lookup_insert_of_ne _ htn).symm.trans ht')

/-- The databases of a new state: those that were there, and one that has been put in. -/
theorem Sound.put (h : Sound n ex) (hm : n ≤ m) (hp : StringPool.Grows A ex.pool ex'.pool)
    (hcur : ex'.catalog.current_ = ex.catalog.current_)
    (hdbs : ex'.catalog.dbs = ex.catalog.dbs.insert key db) (hdb : DatabaseSound m ex'.pool key db) :
    Sound m ex' := by
  constructor
  · rw [hcur, hdbs]
    exact h.current.imp_right fun hmem => Finmap.mem_insert.mpr (.inr hmem)
  · intro d db' hd
    rw [hdbs] at hd
    by_cases hkey : d = key
    · subst hkey
      obtain rfl := Option.some.inj ((Finmap.lookup_insert _).symm.trans hd)
      exact hdb
    · exact (h.databases d db' ((Finmap.lookup_insert_of_ne _ hkey).symm.trans hd)).mono hm hp

theorem Sound.set (h : Sound n ex) (hm : n ≤ m) (hp : StringPool.Grows A ex.pool ex'.pool)
    (hcat : ex'.catalog = ex.catalog.setDatabase key db) (hdb : DatabaseSound m ex'.pool key db) :
    Sound m ex' :=
  h.put hm hp (by rw [hcat]; rfl) (by rw [hcat]; rfl) hdb

def PlainColumns : Statement → Prop
  | .createTable _ cols => ∀ c ∈ cols, PlainDefault c
  | _ => True

theorem after_sound (e : Execution) (hplain : PlainColumns e.statement) (h : Sound n e.before) :
    Sound (n + tuples e.statement) (e.after W) := by
  obtain ⟨heffect, hgrows⟩ := after_effect (W := W) e
  have hle := Nat.le_add_right n (tuples e.statement)
  cases heffect with
  | same hcat =>
    constructor
    · rw [hcat]
      exact h.current
    · rw [hcat]
      exact fun d db hd => (h.databases d db hd).mono hle hgrows
  | created name _ _ hcat =>
    have hdb : DatabaseSound (n + tuples e.statement) (e.after W).pool name
        (.new name e.before.catalog.created) := ⟨rfl, fun tn t ht => by cases ht⟩
    exact h.put hle hgrows (by rw [hcat]) (by rw [hcat]) hdb
  | dropped name _ hcat =>
    constructor
    · rw [hcat]
      by_cases hname : e.before.catalog.current_ = name
      · exact .inl (if_pos hname)
      · simp only [if_neg hname]
        exact h.current.imp_right fun hcur => Finmap.mem_erase.mpr ⟨hname, hcur⟩
    · rw [hcat]
      intro d db hd
      by_cases hname : d = name
      · subst hname
        cases (Finmap.lookup_erase d _).symm.trans hd
      · exact (h.databases d db ((Finmap.lookup_erase_ne hname).symm.trans hd)).mono hle hgrows
  | used name _ hmem hcat =>
    constructor
    · rw [hcat]
      exact .inr hmem
    · rw [hcat]
      exact fun d db hd => (h.databases d db hd).mono hle hgrows
  | added name cols key db hst hdb _ hpool hcat =>
    have hold := (h.databases key db (resolveDatabase_lookup hdb)).mono hle hgrows
    refine h.set hle hgrows hcat (hold.setTable ⟨rfl, ⟨0, Nat.zero_le _, .new _ _ _⟩, ?_⟩)
    rw [hst] at hplain
    rw [hpool]
    exact internDefaults_interned hplain _
  | turned name key db t t' _ hres hschema hturned hcat =>
    obtain ⟨hdb, ht⟩ := resolveTable_ok hres
    have hold := h.databases key db (resolveDatabase_lookup hdb)
    have htable := hold.tables name.table t ht
    obtain ⟨hreach, hcols, hdefaults⟩ := hturned n htable.turned
    refine h.set hle hgrows hcat ((hold.mono hle hgrows).setTable
      ⟨hschema.1.trans htable.name, hreach, ?_⟩)
    rw [show t'.cols = t.cols from hcols]
    exact hdefaults
  | removed name key db _ hdb hcat =>
    have hold := (h.databases key db (resolveDatabase_lookup hdb)).mono hle hgrows
    refine h.set hle hgrows hcat ⟨hold.name, fun tn t ht => hold.tables tn t ?_⟩
    by_cases htn : tn = name.table
    · subst htn
      cases (Finmap.lookup_erase _ db.tables).symm.trans ht
    · exact (Finmap.lookup_erase_ne htn).symm.trans ht
  | cleared hint ts db o _ hcur hcat =>
    have hold := (h.databases _ db (current_eq_some.mp hcur).2).mono hle hgrows
    exact h.set hle hgrows hcat (hold.dropTables o)

/-- The number of tuples that INSERTs have been given. -/
def inserted : List Execution → Nat
  | [] => 0
  | e :: es => tuples e.statement + inserted es

theorem inserted_append (es es' : List Execution) :
    inserted (es ++ es') = inserted es + inserted es' := by
  induction es with
  | nil => exact (Nat.zero_add _).symm
  | cons e es ih => rw [List.cons_append, inserted, inserted, ih, Nat.add_assoc]

theorem parse_plainColumns (src : Text) (st : Statement) (rest : Text)
    (h : Parser.parse src = .ok (st, rest)) : PlainColumns st := by
  cases st with
  | createTable table cols => exact createTable_plain h
  | _ => trivial

theorem run_sound (cs : List Call) (h : Sound n ex) :
    Sound (n + inserted (trace W cs ex)) (runAll W cs ex) := by
  have hT : Composes W fun ex es ex' => ∀ n, (∀ e ∈ es, PlainColumns e.statement) → Sound n ex →
      Sound (n + inserted es) ex' := by
    constructor
    · exact fun ex n _ h => h
    · intro ex ex' ex'' es es' hfirst hnext n hes h
      rw [List.forall_mem_append] at hes
      rw [inserted_append, ← Nat.add_assoc]
      exact hnext _ hes.2 (hfirst n hes.1 h)
    · exact fun e n he h => after_sound e (he e List.mem_cons_self) h
  apply hT.run (fun ex u n _ h => ⟨h.current, h.databases⟩)
    (fun ex files n _ h => ⟨h.current, h.databases⟩) cs ex n _ h
  exact trace_statements parse_plainColumns cs ex

end
end Dbms.Exec

namespace Dbms.Core.Table

/-- The rows fit the schema, an INDEXED column tells them apart, and its index answers as a scan of
them would. -/
structure Consistent (pool : StringPool) (t : Table) : Prop where
  fits : ∀ rid row, t.rows.lookup rid = some row → Fits t.cols row ∧ ∀ v ∈ row.cells, v.Interned pool
  keys : ∀ i c k x rid rid', t.cols[i]? = some c → c.indexed = true → CellAt t.rows i k rid →
    CellAt t.rows i x rid' → valueCmp pool k x = 0 → rid = rid'
  answers : ∀ (i : Nat) (c : ColumnDef), t.cols[i]? = some c → c.indexed = true →
    ∃ ix, t.indexForColumn i = some ix ∧ Answers pool t i ix

theorem Agrees.consistent {pool : StringPool} {t : Table} (h : Agrees pool t) : t.Consistent pool := by
  have hanswers : ∀ (i : Nat) (c : ColumnDef), t.cols[i]? = some c → c.indexed = true →
      ∃ ix, t.indexForColumn i = some ix ∧ Answers pool t i ix := by
    intro i c hc hindexed
    obtain ⟨ix, hix⟩ := Option.isSome_iff_exists.mp ((h.indexed i c hc).mpr hindexed)
    exact ⟨ix, hix, (h.lists i ix hix).answers⟩
  refine ⟨fun rid row hrow => ⟨validateRow_eq_none.mp (h.valid rid row hrow), h.interned rid row hrow⟩,
    fun i c k x rid rid' hc hindexed hk hx heq => ?_, hanswers⟩
  obtain ⟨ix, -, hix⟩ := hanswers i c hc hindexed
  have hrid := (hix.mem_findEqual x rid).mpr ⟨k, hk, heq⟩
  have hrid' := (hix.mem_findEqual x rid').mpr ⟨x, hx, (valueCmp_totalPreorder pool).refl x⟩
  have hone := hix.findEqual_length x
  obtain ⟨r, hr⟩ := List.length_eq_one_iff.mp
    (Nat.le_antisymm hone (List.length_pos_of_mem hrid))
  rw [hr, List.mem_singleton] at hrid hrid'
  rw [hrid, hrid']

end Dbms.Core.Table

namespace Dbms.Exec
variable {W : World}

/-- The current database exists, databases and tables are stored under their own names, and each
table is consistent, made by at most `n` insertions. -/
structure Consistent (n : Nat) (ex : Executor) : Prop where
  current : ex.catalog.current_ = [] ∨ ex.catalog.current_ ∈ ex.catalog.dbs
  named : ∀ d db, ex.catalog.dbs.lookup d = some db → db.name = d
  tables : ∀ d db tn t, ex.catalog.dbs.lookup d = some db → db.tables.lookup tn = some t →
    t.name = tn ∧ (∃ m ≤ n, Table.Reach m ex.pool t) ∧ t.Consistent ex.pool

theorem Sound.new (W : World) (salt : Bytes) (dataDir : Text) (pool : StringPool) (files : Text → Text) :
    Sound 0 (.new W salt dataDir pool files) :=
  ⟨.inl rfl, fun d db hd => by cases hd⟩

/-- So it is after any run from a new executor that inserts at most `2 ^ 64` tuples. -/
theorem run_consistent (salt : Bytes) (dataDir : Text) (pool : StringPool) (files : Text → Text)
    (cs : List Call) (hn : inserted (trace W cs (.new W salt dataDir pool files)) ≤ 2 ^ 64) :
    Consistent (inserted (trace W cs (.new W salt dataDir pool files)))
      (runAll W cs (.new W salt dataDir pool files)) := by
  have hrun := run_sound (W := W) cs (Sound.new W salt dataDir pool files)
  rw [Nat.zero_add] at hrun
  refine ⟨hrun.current, fun d db hd => (hrun.databases d db hd).name, fun d db tn t hd ht => ?_⟩
  have htable := (hrun.databases d db hd).tables tn t ht
  obtain ⟨m, hm, hreach⟩ := htable.reach
  exact ⟨htable.name, htable.reach, (hreach.inv (hm.trans hn)).1.consistent⟩

def twoRows : List Call := ["CREATE DATABASE d", "USE d", "CREATE TABLE t (id INT INDEXED, s STRING)",
  "INSERT INTO t (id, s) VALUE (1, \"a\"), (2, \"b\")"].map (sampleCall 0)

theorem twoRows_inserted : inserted (trace sampleWorld twoRows sampleStart) = 2 := by decide +kernel

theorem run_consistent_twoRows : Consistent 2 (runAll sampleWorld twoRows sampleStart) := by
  rw [← twoRows_inserted]
  apply run_consistent
  show inserted (trace sampleWorld twoRows sampleStart) ≤ 2 ^ 64
  rw [twoRows_inserted]
  decide

end Dbms.Exec
