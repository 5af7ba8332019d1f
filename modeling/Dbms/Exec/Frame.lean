import Dbms.Exec.Effect

/-! What the statements of a run do not write stays as it is. -/

open Dbms.Core Dbms.Lib Dbms.Sql Dbms.Auth

namespace Dbms.Exec

def Executor.tableAt (ex : Executor) (d tn : Text) : Option Table :=
  (ex.catalog.getDatabase d).bind fun db => db.getTable tn

def Execution.databaseOf (e : Execution) (db : Text) : Text :=
  if db = [] then e.before.catalog.current_ else db

/-- The statement may change or drop a table `tn` that the database `d` has. -/
def Execution.Writes (e : Execution) (d tn : Text) : Prop :=
  match e.statement with
  | .dropDatabase name => name = d
  | .dropTable n | .insert n .. | .update n .. | .delete n .. =>
    e.databaseOf n.db = d ∧ n.table = tn
  | .revert .. => e.before.catalog.current_ = d
  | _ => False

instance (e : Execution) (d tn : Text) : Decidable (e.Writes d tn) := by
  unfold Execution.Writes
  split <;> infer_instance

section
variable {W : World} {d tn key : Text} {t : Table} {db : Database} {ex : Executor} {e : Execution}

theorem tableAt_eq_some : ex.tableAt d tn = some t ↔
    ∃ db, ex.catalog.dbs.lookup d = some db ∧ db.tables.lookup tn = some t := by
  unfold Executor.tableAt Catalog.getDatabase Database.getTable
  exact Option.bind_eq_some_iff

theorem databaseOf_eq {n : Text} (h : resolveDatabase e.before.catalog n = some (key, db)) :
    e.databaseOf n = key := by
  unfold resolveDatabase at h
  unfold Execution.databaseOf
  split at h
  · rename_i hn
    obtain ⟨_, _, heq⟩ := Option.map_eq_some_iff.mp h
    cases heq
    exact if_pos hn
  · rename_i hn
    obtain ⟨_, _, heq⟩ := Option.map_eq_some_iff.mp h
    cases heq
    exact if_neg hn

theorem tableAt_set {ex' : Executor} {db' : Database} (h : ex.tableAt d tn = some t)
    (hcat : ex'.catalog = ex.catalog.setDatabase key db') (hdb : ex.catalog.dbs.lookup key = some db)
    (hsame : key = d → db'.tables.lookup tn = db.tables.lookup tn) : ex'.tableAt d tn = some t := by
  obtain ⟨db₁, hdb₁, ht⟩ := tableAt_eq_some.mp h
  rw [tableAt_eq_some, hcat]
  by_cases hkey : key = d
  · subst hkey
    obtain rfl := Option.some.inj (hdb.symm.trans hdb₁)
    exact ⟨db', Finmap.lookup_insert _, (hsame rfl).trans ht⟩
  · exact ⟨db₁, (Finmap.lookup_insert_of_ne _ (Ne.symm hkey)).trans hdb₁, ht⟩

theorem after_tableAt (hno : ¬e.Writes d tn) (h : e.before.tableAt d tn = some t) :
    (e.after W).tableAt d tn = some t := by
  obtain ⟨db₁, hdb₁, ht⟩ := tableAt_eq_some.mp h
  unfold Execution.Writes at hno
  -- One case for each effect; those that put a database back leave its other tables.
  cases (after_effect (W := W) e).1 with
  | same hcat => rwa [tableAt_eq_some, hcat, ← tableAt_eq_some]
  | created name hst hnew hcat =>
    rw [tableAt_eq_some, hcat]
    have hne : d ≠ name := by
      rintro rfl
      exact hnew (Finmap.mem_of_lookup_eq_some hdb₁)
    exact ⟨db₁, (Finmap.lookup_insert_of_ne _ hne).trans hdb₁, ht⟩
  | dropped name hst hcat =>
    rw [hst] at hno
    rw [tableAt_eq_some, hcat]
    exact ⟨db₁, (Finmap.lookup_erase_ne (Ne.symm hno)).trans hdb₁, ht⟩
  | used name hst _ hcat => rwa [tableAt_eq_some, hcat, ← tableAt_eq_some]
  | added n cols key db hst hdb hnew _ hcat =>
    refine tableAt_set h hcat (resolveDatabase_lookup hdb) fun hkey => ?_
    apply Finmap.lookup_insert_of_ne
    rintro rfl
    subst hkey
    obtain rfl := Option.some.inj ((resolveDatabase_lookup hdb).symm.trans hdb₁)
    exact hnew (Finmap.mem_of_lookup_eq_some ht)
  | turned n key db t₁ t' hst hres _ _ hcat =>
    obtain ⟨hdb, -⟩ := resolveTable_ok hres
    refine tableAt_set h hcat (resolveDatabase_lookup hdb) fun hkey => ?_
    apply Finmap.lookup_insert_of_ne
    rintro rfl
    have hof := (databaseOf_eq hdb).trans hkey
    cases hs : e.statement <;> rw [hs] at hst hno <;> cases hst <;> exact hno ⟨hof, rfl⟩
  | removed n key db hst hdb hcat =>
    refine tableAt_set h hcat (resolveDatabase_lookup hdb) fun hkey => ?_
    apply Finmap.lookup_erase_ne
    rintro rfl
    rw [hst] at hno
    exact hno ⟨(databaseOf_eq hdb).trans hkey, rfl⟩
  | cleared hint ts db o hst hcur hcat =>
    rw [hst] at hno
    exact tableAt_set h hcat (current_eq_some.mp hcur).2 fun hkey => absurd hkey hno

/-- A table that no statement of a run writes is there at its end as it was at its start, with its
rows, their ids and its indexes, and its ids of strings stand for what they stood for. -/
theorem run_frame {cs : List Call} (hno : ∀ e ∈ trace W cs ex, ¬e.Writes d tn)
    (ht : ex.tableAt d tn = some t) : (runAll W cs ex).tableAt d tn = some t ∧
      ∀ id < ex.pool.size, (runAll W cs ex).pool.resolve id = ex.pool.resolve id := by
  constructor
  · exact trace_keeps (I := fun ex => ex.tableAt d tn = some t) (Q := fun e => ¬e.Writes d tn)
      (fun _ h hno => after_tableAt hno h) (fun _ _ h => h) (fun _ _ h => h) hno ht
  · have hpool : ex.pool.Extends (runAll W cs ex).pool :=
      trace_keeps (I := fun ex' => ex.pool.Extends ex'.pool) (Q := fun _ => True)
        (fun e h _ => h.trans (after_effect e).2.extends) (fun _ _ h => h) (fun _ _ h => h)
        (fun _ _ => trivial) (.refl _)
    exact fun id hid => hpool.resolve hid

end

def twoTables : Executor :=
  sampleRun ["CREATE DATABASE a", "CREATE TABLE a.t (n INT)", "INSERT INTO a.t (n) VALUE (1)",
    "CREATE DATABASE b", "CREATE TABLE b.t (n INT)", "USE b"]

def writesB : List Call :=
  ["INSERT INTO t (n) VALUE (2)", "DELETE FROM b.t", "SELECT * FROM a.t", "DROP DATABASE b"].map
    (sampleCall 0)

theorem twoTables_writes : (twoTables.tableAt ['a'] ['t']).isSome = true ∧
    ∀ e ∈ trace sampleWorld writesB twoTables, ¬e.Writes ['a'] ['t'] := by decide +kernel

theorem run_frame_twoTables : ∃ t, twoTables.tableAt ['a'] ['t'] = some t ∧
    (runAll sampleWorld writesB twoTables).tableAt ['a'] ['t'] = some t := by
  obtain ⟨hsome, hno⟩ := twoTables_writes
  obtain ⟨t, ht⟩ := Option.isSome_iff_exists.mp hsome
  exact ⟨t, ht, (run_frame hno ht).1⟩

end Dbms.Exec
