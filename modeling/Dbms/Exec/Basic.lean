import Dbms.Exec.Run

/-! First facts about the executor: what the helpers return and where a call can end. -/

open Dbms.Core Dbms.Lib Dbms.Sql Dbms.Auth

namespace Dbms.Exec

variable {W : World} {ticks : List Nat → Tick} {tick : Tick} {n : Nat} {path : List Nat}
  {allow : Bool} {ex ex' : Executor} {res : ExecResult} {st : Statement} {r : Request}
  {cat : Catalog} {key tname : Text} {db : Database} {t : Table}

theorem setTable_self (h : db.tables.lookup tname = some t) : db.setTable tname t = db := by
  have hins : db.tables.insert tname t = db.tables := by
    apply Finmap.ext_lookup
    intro x
    by_cases hx : x = tname
    · rw [hx, Finmap.lookup_insert, h]
    · rw [Finmap.lookup_insert_of_ne _ hx]
  simp only [Database.setTable, hins]

theorem setDatabase_self (h : cat.dbs.lookup key = some db) : cat.setDatabase key db = cat := by
  have hins : cat.dbs.insert key db = cat.dbs := by
    apply Finmap.ext_lookup
    intro x
    by_cases hx : x = key
    · rw [hx, Finmap.lookup_insert, h]
    · rw [Finmap.lookup_insert_of_ne _ hx]
  simp only [Catalog.setDatabase, hins]

theorem current_eq_some : cat.current = some db ↔
    cat.current_ ≠ [] ∧ cat.dbs.lookup cat.current_ = some db := by
  unfold Catalog.current Catalog.getDatabase
  split
  · rename_i h
    simp [h]
  · rename_i h
    simp [h]

theorem createDatabase_ok {cat' : Catalog} {name : Text} (h : cat.createDatabase name = .ok cat') :
    name ∉ cat.dbs ∧ cat' = { cat with
      dbs := cat.dbs.insert name (.new name cat.created), created := cat.created + 1 } := by
  unfold Catalog.createDatabase at h
  split at h
  · cases h
  · rename_i hnew
    cases h
    exact ⟨hnew, rfl⟩

theorem resolveDatabase_lookup {n : Text} (h : resolveDatabase cat n = some (key, db)) :
    cat.dbs.lookup key = some db := by
  unfold resolveDatabase at h
  split at h
  · obtain ⟨d, hd, heq⟩ := Option.map_eq_some_iff.mp h
    cases heq
    exact (current_eq_some.mp hd).2
  · obtain ⟨d, hd, heq⟩ := Option.map_eq_some_iff.mp h
    cases heq
    exact hd

theorem resolveTable_ok {n : Name} (h : resolveTable cat n = .ok (key, db, t)) :
    resolveDatabase cat n.db = some (key, db) ∧ db.tables.lookup n.table = some t := by
  unfold resolveTable at h
  split at h
  · cases h
  · rename_i hdb
    split at h
    · cases h
    · rename_i ht
      cases h
      exact ⟨hdb, ht⟩

theorem resolveTable_self {n : Name} (h : resolveTable cat n = .ok (key, db, t)) :
    cat.setDatabase key (db.setTable n.table t) = cat := by
  obtain ⟨hdb, ht⟩ := resolveTable_ok h
  rw [setTable_self ht, setDatabase_self (resolveDatabase_lookup hdb)]

theorem resolveTable_set {n : Name} (h : resolveTable cat n = .ok (key, db, t)) (t' : Table) :
    resolveTable (cat.setDatabase key (db.setTable n.table t')) n =
      .ok (key, db.setTable n.table t', t') := by
  obtain ⟨hdb, -⟩ := resolveTable_ok h
  have hset : resolveDatabase (cat.setDatabase key (db.setTable n.table t')) n.db =
      some (key, db.setTable n.table t') := by
    unfold resolveDatabase at hdb ⊢
    split at hdb
    · rename_i hempty
      obtain ⟨d, hd, heq⟩ := Option.map_eq_some_iff.mp hdb
      cases heq
      rw [if_pos hempty]
      refine Option.map_eq_some_iff.mpr ⟨_, current_eq_some.mpr ⟨(current_eq_some.mp hd).1, ?_⟩, rfl⟩
      exact Finmap.lookup_insert _
    · rename_i hname
      obtain ⟨d, -, heq⟩ := Option.map_eq_some_iff.mp hdb
      cases heq
      rw [if_neg hname]
      exact Option.map_eq_some_iff.mpr ⟨_, Finmap.lookup_insert _, rfl⟩
  have ht : (db.setTable n.table t').getTable n.table = some t' := Finmap.lookup_insert _
  simp only [resolveTable, hset, ht]

theorem execStatement_simple (h : isRevert st = false) :
    execStatement W ticks n path st allow ex =
      .done (execSimple W (ticks path) allow ex st).1 (execSimple W (ticks path) allow ex st).2 := by
  cases st with
  | revert hint ts => cases h
  | _ => cases n <;> rfl

theorem execSelect_catalog (items : List SelectItem) (table : Name) (w : WhereClause) :
    (execSelect W tick ex items table w).2.catalog = ex.catalog := by
  unfold execSelect
  split
  · rfl
  · dsimp only
    split <;> rfl

theorem withRbac_catalog (c : Except Text Rbac) : (withRbac ex c).2.catalog = ex.catalog := by
  cases c <;> rfl

theorem maybeJournal_some {sql : Text} {skip isMut : Bool} {d : Text}
    (h : ex.maybeJournal tick sql skip isMut d = some ex') :
    ∃ files, ex' = { ex with files := files } := by
  unfold Executor.maybeJournal at h
  split at h
  · exact ⟨ex.files, (Option.some.inj h).symm⟩
  · obtain ⟨stored, -, rfl⟩ := Option.map_eq_some_iff.mp h
    exact ⟨_, rfl⟩

theorem maybeJournal_none {sql : Text} {skip isMut : Bool} {d : Text}
    (h : ex.maybeJournal tick sql skip isMut d = none) : tick.journal = none := by
  unfold Executor.maybeJournal at h
  split at h
  · cases h
  · exact Option.map_eq_none_iff.mp h

/-- The journal takes no part in a request, except that its directory may fail. -/
theorem conclude_done (ticks : List Nat → Tick) (r : Request) (cat : Catalog) (st : Statement)
    (res : ExecResult) (ex : Executor) :
    (∃ files, conclude ticks r cat st (.done res ex) = .done res { ex with files := files }) ∨
      (res.ok = true ∧ isMutating st = true ∧ (ticks []).journal = none) ∧
        conclude ticks r cat st (.done res ex) = .raised ex := by
  unfold conclude
  dsimp only
  split
  · rename_i hdue
    simp only [Bool.and_eq_true] at hdue
    split
    · rename_i hjournal
      obtain ⟨files, rfl⟩ := maybeJournal_some hjournal
      exact .inl ⟨files, rfl⟩
    · rename_i hjournal
      exact .inr ⟨⟨hdue.1.1.1, hdue.1.1.2, maybeJournal_none hjournal⟩, rfl⟩
  · exact .inl ⟨ex.files, rfl⟩

theorem conclude_plain (h : isMutating st = false) (r : Request) (o : Outcome) :
    conclude ticks r cat st o = o := by
  cases o with
  | done res ex => simp [conclude, h]
  | _ => rfl

theorem conclude_revert (r : Request) {hint : Name} {ts : Text} (o : Outcome) :
    conclude ticks r cat (.revert hint ts) o = o := by
  cases o with
  | done res ex => simp [conclude, isRevert]
  | _ => rfl

theorem conclude_state (ticks : List Nat → Tick) (r : Request) (cat : Catalog) (st : Statement)
    (o : Outcome) :
    ∃ files, (conclude ticks r cat st o).state = { o.state with files := files } := by
  cases o with
  | done res ex =>
    obtain ⟨files, h⟩ | ⟨-, h⟩ := conclude_done ticks r cat st res ex <;> rw [h]
    · exact ⟨files, rfl⟩
    · exact ⟨ex.files, rfl⟩
  | raised ex | dangling ex | running ex => exact ⟨ex.files, rfl⟩

theorem conclude_eq_done {o : Outcome} (h : conclude ticks r cat st o = .done res ex') :
    ∃ ex₂, o = .done res ex₂ ∧ ∃ files, ex' = { ex₂ with files := files } := by
  cases o with
  | done res₂ ex₂ =>
    obtain ⟨files, hdone⟩ | ⟨-, hraised⟩ := conclude_done ticks r cat st res₂ ex₂
    · obtain ⟨rfl, rfl⟩ := Outcome.done.inj (hdone.symm.trans h)
      exact ⟨ex₂, rfl, files, rfl⟩
    · cases hraised.symm.trans h
  | _ => cases h

theorem authenticate_state (h : authenticate W ticks r.jwt ex = .ok ex') :
    ∃ u, ex' = { ex with rbacUser := u } := by
  unfold authenticate at h
  split at h
  · cases h
    exact ⟨ex.rbacUser, rfl⟩
  · cases hv : jwtVerify W.hmac (ticks []).verifySec W.jwtSecret r.jwt with
    | error e =>
      rw [hv] at h
      cases h
    | ok jp =>
      rw [hv] at h
      cases h
      exact ⟨jp.sub, rfl⟩

theorem execute_done (h : execute W ticks n r ex = .done res ex') :
    (res.ok = false ∧ ∃ u, ex' = { ex with rbacUser := u }) ∨
      ∃ ex₁ st rest ex₂, authenticate W ticks r.jwt ex = .ok ex₁ ∧
        Parser.parse (statementText r.sql ++ [' ']) = .ok (st, rest) ∧ forbidden ex₁ st = none ∧
        execStatement W ticks n [] st r.allowMutations ex₁ = .done res ex₂ ∧
        conclude ticks r ex₁.catalog st (.done res ex₂) = .done res ex' := by
  unfold execute at h
  split at h
  · cases h
    exact .inl ⟨rfl, ex.rbacUser, rfl⟩
  · cases h
  rename_i ex₁ hauth
  obtain ⟨u, hu⟩ := authenticate_state hauth
  split at h
  · cases h
    exact .inl ⟨rfl, u, hu⟩
  · cases h
  · cases h
  rename_i st rest hparse
  split at h
  · cases h
    exact .inl ⟨rfl, u, hu⟩
  rename_i hgate
  obtain ⟨ex₂, hex, -⟩ := conclude_eq_done h
  exact .inr ⟨ex₁, st, rest, ex₂, hauth, hparse, hgate, hex, hex ▸ h⟩

theorem execute_eq {rest : Text} (hauth : authenticate W ticks r.jwt ex = .ok ex')
    (hparse : Parser.parse (statementText r.sql ++ [' ']) = .ok (st, rest))
    (hgate : forbidden ex' st = none) :
    execute W ticks n r ex = conclude ticks r ex'.catalog st
      (execStatement W ticks n [] st r.allowMutations ex') := by
  simp only [execute, hauth, hparse, hgate]

end Dbms.Exec
