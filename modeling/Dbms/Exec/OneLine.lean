import Dbms.Auth.Base64
import Dbms.Exec.Unbroken

/-! A call that gets no line break returns none, even if it replays a journal. -/

open Dbms.Core Dbms.Lib Dbms.Sql Dbms.Auth

namespace Dbms.Exec
variable {W : World} {tick : Tick} {allow : Bool} {ex : Executor} {st : Statement} {n : Name}
  {t : Table} {row : Row} {pool : StringPool} {rid : RowId} {s : RowsState} {m : Text}
  {sets : List (Text × Literal)} {cols : List Text} {tup : List Literal} {w : WhereClause}

/-! Errors of single rows. -/

theorem cellError_unbroken {c : ColumnDef} {v : Value} (hc : Unbroken c.name)
    (h : c.cellError v = some m) : Unbroken m := by
  have hmessage : ∀ pre : Text, Unbroken pre → Unbroken (pre ++ c.name ++ "`".toList) :=
    fun pre hpre => (hpre.append hc).append (by decide)
  unfold ColumnDef.cellError at h
  split at h <;> split at h <;> cases h <;> exact hmessage _ (by decide)

theorem validateRow_unbroken (ht : t.Unbroken) (h : t.validateRow row = some m) : Unbroken m := by
  unfold Table.validateRow at h
  split at h
  · cases h
    decide
  · obtain ⟨⟨c, v⟩, hmem, hcell⟩ := List.exists_of_findSome?_eq_some h
    exact cellError_unbroken (ht c (List.of_mem_zip hmem).1) hcell

theorem insertRow_tidy (ht : t.Unbroken) (pool : StringPool) (row : Row) :
    Tidy (fun _ => True) (t.insertRow pool row).1 := by
  unfold Table.insertRow
  split
  · rename_i hrow
    exact validateRow_unbroken ht hrow
  · split
    · rename_i c hdup
      have hc := ht c.1 (List.fst_mem_of_mem_zipIdx (List.mem_of_find?_eq_some hdup))
      exact (Unbroken.append (by decide) hc).append (by decide)
    · trivial

theorem updateRow_tidy (ht : t.Unbroken) (pool : StringPool) (rid : RowId) (row : Row) :
    Tidy (fun _ => True) (t.updateRow pool rid row).1 := by
  unfold Table.updateRow
  split
  · exact (by decide : Unbroken "row not found".toList)
  · split
    · rename_i hrow
      exact validateRow_unbroken ht hrow
    · split
      · exact (by decide : Unbroken "duplicate INDEXED value".toList)
      · trivial

theorem deleteRow_tidy (t : Table) (pool : StringPool) (rid : RowId) :
    Tidy (fun _ => True) (t.deleteRow pool rid).1 := by
  unfold Table.deleteRow
  split
  · exact (by decide : Unbroken "row not found".toList)
  · trivial

theorem setCells_tidy {unknown : Text → Text} (hsets : ∀ set ∈ sets, Unbroken (unknown set.1)) :
    Tidy (fun _ => True) (setCells t unknown sets row pool).1 := by
  induction sets generalizing row pool with
  | nil => trivial
  | cons set sets ih =>
    obtain ⟨hset, hsets⟩ := List.forall_mem_cons.mp hsets
    unfold setCells
    split
    · exact hset
    · exact ih hsets

theorem buildRow_tidy (hcols : ∀ c ∈ cols, Unbroken c) (t : Table) (tup : List Literal)
    (pool : StringPool) : Tidy (fun _ => True) (buildRow t cols tup pool).1 := by
  unfold buildRow
  split
  · exact (by decide : Unbroken "INSERT column count mismatch".toList)
  · have hset : Tidy (fun _ => True) (setCells t ("unknown column ".toList ++ ·) (cols.zip tup)
        ⟨List.replicate t.cols.length .null⟩ pool).1 :=
      setCells_tidy fun set hmem =>
        Unbroken.append (by decide) (hcols set.1 (List.of_mem_zip (a := set.1) (b := set.2) hmem).1)
    split <;> rename_i hrun <;> rw [hrun] at hset
    · exact hset
    · trivial

/-! Errors that end the loops over the rows. -/

theorem insertTuple_stop (hcols : ∀ c ∈ cols, Unbroken c) (ht : s.table.Unbroken)
    (h : (insertTuple cols tup s).1 = some m) : Unbroken m := by
  have hbuild := buildRow_tidy hcols s.table tup s.pool
  unfold insertTuple at h
  split at h <;> rename_i hrun <;> rw [hrun] at hbuild
  · cases h
    exact hbuild
  · rename_i row pool
    have hins := insertRow_tidy ht pool row
    split at h <;> rename_i hrun' <;> rw [hrun'] at hins
    · cases h
      exact hins
    · dsimp only at h
      split at h <;> cases h
      exact .nil

theorem updateOne_stop {regex : Regex} (ht : s.table.Unbroken)
    (h : (updateOne regex w sets rid s).1 = some m) : Unbroken m := by
  unfold updateOne at h
  split at h
  · cases h
  rename_i rw hrow
  dsimp only at h
  split at h
  · have hset : Tidy (fun _ => True) (setCells s.table (fun _ => "unknown column".toList) sets rw
        (evalWhere regex s.table rw w s.pool s.err).pool).1 := setCells_tidy fun _ _ => by decide
    split at h <;> rename_i hrun <;> rw [hrun] at hset
    · cases h
      exact hset
    · rename_i nr pool
      have hupd := updateRow_tidy ht pool rid nr
      split at h <;> rename_i hrun' <;> rw [hrun'] at hupd
      · cases h
        exact hupd
      · cases h
  · cases h

theorem deleteOne_stop (h : (deleteOne rid s).1 = some m) : Unbroken m := by
  have hdel := deleteRow_tidy s.table s.pool rid
  unfold deleteOne at h
  split at h <;> rename_i hrun <;> rw [hrun] at hdel
  · cases h
    exact hdel
  · cases h

/-! What statements store. -/

theorem strings_unbroken {l : Literal} (h : l.Unbroken) : ∀ s ∈ l.strings, Unbroken s := by
  cases l with
  | null | int => exact nofun
  | string s => exact List.forall_mem_singleton.mpr h

theorem whereStrings_unbroken (h : w.Unbroken) : ∀ s ∈ whereStrings w, Unbroken s := by
  intro s hs
  obtain ⟨node, hnode, hmem⟩ := List.mem_flatMap.mp hs
  have hn := h node hnode
  unfold nodeStrings at hmem
  split at hmem
  · exact strings_unbroken hn.2 s hmem
  · exact (List.mem_append.mp hmem).elim (strings_unbroken hn.2.1 s) (strings_unbroken hn.2.2 s)
  · cases hmem

theorem statementStrings_unbroken (h : st.Unbroken) : ∀ s ∈ statementStrings st, Unbroken s := by
  intro s hs
  cases st with
  | createTable table columns =>
    obtain ⟨c, hc, hdefault⟩ := List.mem_filterMap.mp hs
    exact (h.2 c hc).2 s hdefault
  | insert table cols rows =>
    obtain ⟨tup, htup, hmem⟩ := List.mem_flatMap.mp hs
    obtain ⟨l, hl, hmem⟩ := List.mem_flatMap.mp hmem
    exact strings_unbroken (h.2.2 tup htup l hl) s hmem
  | update table sets w =>
    rcases List.mem_append.mp hs with hs | hs
    · exact whereStrings_unbroken h.2.2 s hs
    · obtain ⟨set, hset, hmem⟩ := List.mem_flatMap.mp hs
      exact strings_unbroken (h.2.1 set hset).2 s hmem
  | delete table w => exact whereStrings_unbroken h.2 s hs
  | select items table w => exact whereStrings_unbroken h.2.2 s hs
  | _ => cases hs

theorem internDefaults_unbroken {columns : List ColumnDef} (h : ∀ c ∈ columns, UnbrokenColumn c)
    (pool : StringPool) : ∀ c ∈ (internDefaults columns pool).1, Unbroken c.name := by
  induction columns generalizing pool with
  | nil => exact nofun
  | cons c columns ih =>
    obtain ⟨hc, hcolumns⟩ := List.forall_mem_cons.mp h
    unfold internDefaults
    split
    · exact List.forall_mem_cons.mpr ⟨hc.1, ih hcolumns pool⟩
    · exact List.forall_mem_cons.mpr ⟨hc.1, ih hcolumns _⟩

theorem Executor.Unbroken.put {ex' : Executor} {key : Text} {db : Database} (h : ex.Unbroken)
    (hpool : ex'.pool.Unbroken) (hdbs : ex'.catalog.dbs = ex.catalog.dbs.insert key db)
    (hdb : db.Unbroken) : ex'.Unbroken := by
  refine ⟨hpool, fun d db' hd => ?_⟩
  rw [hdbs] at hd
  by_cases hkey : d = key
  · subst hkey
    obtain rfl := Option.some.inj ((Finmap.lookup_insert _).symm.trans hd)
    exact hdb
  · exact h.databases d db' ((Finmap.lookup_insert_of_ne _ hkey).symm.trans hd)

theorem Executor.Unbroken.set {ex' : Executor} {key : Text} {db : Database} (h : ex.Unbroken)
    (hpool : ex'.pool.Unbroken) (hcat : ex'.catalog = ex.catalog.setDatabase key db)
    (hdb : db.Unbroken) : ex'.Unbroken :=
  h.put hpool (by rw [hcat]; rfl) hdb

theorem Executor.Unbroken.table {key : Text} {db : Database} (h : ex.Unbroken)
    (hres : resolveTable ex.catalog n = .ok (key, db, t)) : t.Unbroken := by
  obtain ⟨hdb, ht⟩ := resolveTable_ok hres
  exact h.databases key db (resolveDatabase_lookup hdb) n.table t ht

theorem after_unbroken (e : Execution) (hst : e.statement.Unbroken) (h : e.before.Unbroken) :
    (e.after W).Unbroken := by
  obtain ⟨heffect, hgrows⟩ := after_effect (W := W) e
  have hpool := h.pool.grows (hgrows.mono (statementStrings_unbroken hst))
  cases heffect with
  | same hcat => exact ⟨hpool, hcat ▸ h.databases⟩
  | created name _ _ hcat =>
    have hdb : (Database.new name e.before.catalog.created).Unbroken := fun tn t ht => by cases ht
    exact h.put hpool (by rw [hcat]) hdb
  | dropped name _ hcat =>
    refine ⟨hpool, fun d db hd => ?_⟩
    rw [hcat] at hd
    by_cases hname : d = name
    · subst hname
      cases (Finmap.lookup_erase d _).symm.trans hd
    · exact h.databases d db ((Finmap.lookup_erase_ne hname).symm.trans hd)
  | used name _ _ hcat => exact ⟨hpool, hcat ▸ h.databases⟩
  | added name columns key db hadd hdb _ _ hcat =>
    rw [hadd] at hst
    exact h.set hpool hcat (.setTable (h.databases key db (resolveDatabase_lookup hdb))
      (internDefaults_unbroken hst.2 _))
  | turned name key db t t' _ hres hschema _ hcat =>
    have ht : t'.Unbroken := fun c hc => h.table hres c (hschema.2 ▸ hc)
    obtain ⟨hdb, -⟩ := resolveTable_ok hres
    exact h.set hpool hcat (.setTable (h.databases key db (resolveDatabase_lookup hdb)) ht)
  | removed name key db _ hdb hcat =>
    refine h.set hpool hcat fun tn t ht => h.databases key db (resolveDatabase_lookup hdb) tn t ?_
    by_cases htn : tn = name.table
    · subst htn
      cases (Finmap.lookup_erase _ db.tables).symm.trans ht
    · exact (Finmap.lookup_erase_ne htn).symm.trans ht
  | cleared hint ts db o _ hcur hcat =>
    refine h.set hpool hcat ?_
    rw [dropTables_eq]
    exact fun tn t ht => by cases ht

/-! Results of single statements. -/

theorem failed_unbroken (h : Unbroken m) : (ExecResult.failed m).Unbroken :=
  ⟨h, (by decide : Unbroken "\x7b\x7d".toList)⟩

theorem done_unbroken {json : Text} (h : Unbroken json) : (ExecResult.done json).Unbroken :=
  ⟨(by decide : Unbroken "ok".toList), h⟩

theorem success_unbroken : ExecResult.success.Unbroken := done_unbroken (by decide)

theorem ifAllowed_unbroken {k : ExecResult × Executor} (h : k.1.Unbroken) :
    (ifAllowed allow ex k).1.Unbroken := by
  unfold ifAllowed
  split
  · exact h
  · exact failed_unbroken (by decide)

theorem withCatalog_unbroken {r : Except Text Catalog} (h : Tidy (fun _ => True) r) :
    (withCatalog ex r).1.Unbroken := by
  cases r with
  | error m => exact failed_unbroken h
  | ok cat => exact success_unbroken

theorem withRbac_unbroken {r : Except Text Rbac} (h : Tidy (fun _ => True) r) :
    (withRbac ex r).1.Unbroken := by
  cases r with
  | error m => exact failed_unbroken h
  | ok rbac => exact success_unbroken

theorem full_unbroken (h : n.Unbroken) : Unbroken n.full := by
  unfold Name.full
  split
  · exact h.2
  · exact (h.1.append (by decide)).append h.2

theorem resolveTable_tidy (h : n.Unbroken) (cat : Catalog) :
    Tidy (fun _ => True) (resolveTable cat n) := by
  unfold resolveTable
  split
  · exact (by decide : Unbroken "no current database (USE ...)".toList)
  · split
    · exact Unbroken.append (by decide) (full_unbroken h)
    · trivial

theorem withRows_unbroken {α : Type} {body : α → RowsState → Option Text × RowsState} {xs : List α}
    {key tname : Text} {db : Database} (ht : t.Unbroken)
    (hschema : ∀ x s, SameSchema s.table (body x s).2.table)
    (hstop : ∀ x s m, s.table.Unbroken → (body x s).1 = some m → Unbroken m) :
    (withRows ex key db tname (untilError body xs ⟨t, pool, []⟩)).1.Unbroken := by
  unfold withRows
  cases hend : (untilError body xs ⟨t, pool, []⟩).1 with
  | none => exact success_unbroken
  | some m =>
    refine failed_unbroken (untilError_error (I := fun s : RowsState => s.table.Unbroken)
      (fun x _ s hs c hc => hs c ((hschema x s).2 ▸ hc)) (fun x _ s m => hstop x s m) ?_ hend)
    exact ht

theorem execSelect_unbroken {items : List SelectItem} (hprint : W.print.Unbroken) (h : ex.Unbroken)
    (hitems : ∀ it ∈ items, it.Unbroken) (hn : n.Unbroken) (hw : w.Unbroken) :
    (execSelect W tick ex items n w).1.Unbroken := by
  have hstrings := whereStrings_unbroken hw
  have hres := resolveTable_tidy hn ex.catalog
  unfold execSelect
  split <;> rename_i hfound <;> rw [hfound] at hres
  · exact failed_unbroken hres
  rename_i t
  dsimp only
  split
  · have hobj := aggregateObject_tidy hprint hitems t
      ((matching W.regex w t (t.allRowIds tick.rowOrder) ex.pool []).1.filterMap t.getRow)
    split <;> rename_i hrun <;> rw [hrun] at hobj
    · exact failed_unbroken hobj
    · exact done_unbroken (jsonArray_unbroken (List.forall_mem_singleton.mpr hobj))
  · have hobjs := selectRows_tidy (h.table hfound) hitems hstrings W.regex
      (candidateRows tick.rowOrder t w ex.pool).1
      (h.pool.grows (candidateRows_grows hstrings tick.rowOrder t ex.pool)) []
    split <;> rename_i hrun <;> rw [hrun] at hobjs
    · exact failed_unbroken hobjs
    · exact done_unbroken (jsonArray_unbroken hobjs)

theorem jwtSignHs256_unbroken (hmac : Hmac) (now : Int) (secret sub : Text) (ttl : Int) :
    Unbroken (jwtSignHs256 hmac now secret sub ttl) := by
  have hcode : ∀ s, Unbroken (b64urlEncode s) :=
    fun s hs => absurd (b64urlEncode_alphabet s _ hs) (by decide)
  exact ((hcode _).append ((hcode _).cons (by decide))).append ((hcode _).cons (by decide))

theorem execCreateDatabase_unbroken (allow : Bool) (ex : Executor) {name : Text}
    (hname : Unbroken name) : (execCreateDatabase allow ex name).1.Unbroken := by
  apply ifAllowed_unbroken
  unfold Catalog.createDatabase
  split
  · rename_i hnew
    split at hnew <;> cases hnew
    exact failed_unbroken (.append (by decide) hname)
  · exact success_unbroken

theorem execDropDatabase_unbroken (allow : Bool) (ex : Executor) {name : Text}
    (hname : Unbroken name) : (execDropDatabase allow ex name).1.Unbroken := by
  refine ifAllowed_unbroken (withCatalog_unbroken ?_)
  unfold Catalog.dropDatabase
  split
  · trivial
  · exact Unbroken.append (by decide) hname

theorem execUse_unbroken (ex : Executor) {name : Text} (hname : Unbroken name) :
    (execUse ex name).1.Unbroken := by
  refine withCatalog_unbroken ?_
  unfold Catalog.setCurrent
  split
  · trivial
  · exact Unbroken.append (by decide) hname

theorem execCreateTable_unbroken (allow : Bool) (ex : Executor) (columns : List ColumnDef)
    (hn : n.Unbroken) : (execCreateTable allow ex n columns).1.Unbroken := by
  apply ifAllowed_unbroken
  split
  · exact failed_unbroken (by decide)
  · refine withCatalog_unbroken (Tidy.map (P := fun _ => True) ?_ fun _ _ => trivial)
    unfold Database.createTable
    split
    · exact Unbroken.append (by decide) hn.2
    · trivial

theorem execDropTable_unbroken (allow : Bool) (ex : Executor) (hn : n.Unbroken) :
    (execDropTable allow ex n).1.Unbroken := by
  apply ifAllowed_unbroken
  split
  · exact failed_unbroken (by decide)
  · refine withCatalog_unbroken (Tidy.map (P := fun _ => True) ?_ fun _ _ => trivial)
    unfold Database.dropTable
    split
    · trivial
    · exact Unbroken.append (by decide) hn.2

theorem execInsert_unbroken (h : ex.Unbroken) (hn : n.Unbroken) (hcols : ∀ c ∈ cols, Unbroken c)
    (rows : List (List Literal)) : (execInsert allow ex n cols rows).1.Unbroken := by
  have hres := resolveTable_tidy hn ex.catalog
  apply ifAllowed_unbroken
  split <;> rename_i hfound <;> rw [hfound] at hres
  · exact failed_unbroken hres
  · exact withRows_unbroken (h.table hfound) (insertTuple_schema cols) fun tup s m ht hend =>
      insertTuple_stop hcols ht hend

theorem execUpdate_unbroken (h : ex.Unbroken) (hn : n.Unbroken) :
    (execUpdate W tick allow ex n sets w).1.Unbroken := by
  have hres := resolveTable_tidy hn ex.catalog
  apply ifAllowed_unbroken
  split <;> rename_i hfound <;> rw [hfound] at hres
  · exact failed_unbroken hres
  · exact withRows_unbroken (h.table hfound) (updateOne_schema W.regex w sets)
      fun rid s m ht hend => updateOne_stop ht hend

theorem execDelete_unbroken (h : ex.Unbroken) (hn : n.Unbroken) :
    (execDelete W tick allow ex n w).1.Unbroken := by
  have hres := resolveTable_tidy hn ex.catalog
  apply ifAllowed_unbroken
  split <;> rename_i hfound <;> rw [hfound] at hres
  · exact failed_unbroken hres
  · exact withRows_unbroken (h.table hfound) deleteOne_schema fun rid s m _ hend =>
      deleteOne_stop hend

theorem execAuthLogin_unbroken (user password : Text) :
    (execAuthLogin W tick ex user password).1.Unbroken := by
  unfold execAuthLogin
  split
  · refine done_unbroken (Unbroken.append (.append (by decide) ?_) (by decide))
    exact jsonField_unbroken (by decide) (jsonString_unbroken (jwtSignHs256_unbroken _ _ _ _ _))
  · exact failed_unbroken (by decide)

theorem createUser_tidy (rbac : Rbac) (pbkdf2 : Pbkdf2) (salt : Bytes) (user password : Text) :
    Tidy (fun _ => True) (rbac.createUser pbkdf2 salt user password) := by
  unfold Rbac.createUser
  split
  · exact (by decide : Unbroken "user exists".toList)
  · trivial

theorem createGroup_tidy (rbac : Rbac) (group : Text) :
    Tidy (fun _ => True) (rbac.createGroup group) := by
  unfold Rbac.createGroup
  split
  · exact (by decide : Unbroken "group exists".toList)
  · trivial

theorem permFromString_tidy {permission : Text} (h : Unbroken permission) :
    Tidy (fun _ => True) (permFromString permission) := by
  unfold permFromString
  split
  · trivial
  · exact Unbroken.append (by decide) h

theorem execSimple_unbroken (hprint : W.print.Unbroken) (h : ex.Unbroken) (hst : st.Unbroken) :
    (execSimple W tick allow ex st).1.Unbroken := by
  cases st with
  | createDatabase name => exact execCreateDatabase_unbroken allow ex hst
  | dropDatabase name => exact execDropDatabase_unbroken allow ex hst
  | use name => exact execUse_unbroken ex hst
  | createTable table columns => exact execCreateTable_unbroken allow ex columns hst.1
  | dropTable table => exact execDropTable_unbroken allow ex hst
  | insert table cols rows => exact execInsert_unbroken h hst.1 hst.2.1 rows
  | update table sets w => exact execUpdate_unbroken h hst.1
  | delete table w => exact execDelete_unbroken h hst.1
  | select items table w => exact execSelect_unbroken hprint h hst.1 hst.2.1 hst.2.2
  | authLogin user password => exact execAuthLogin_unbroken user password
  | authCreateUser user password => exact withRbac_unbroken (createUser_tidy _ _ _ _ _)
  | authCreateGroup group => exact withRbac_unbroken (createGroup_tidy _ _)
  | authGrant db principal permission =>
    exact withRbac_unbroken ((permFromString_tidy hst.2.2).map fun _ _ => trivial)
  | revert hint ts => exact failed_unbroken (by decide)

/-! Results of calls. -/

theorem blank_unbroken : Unbroken [' '] := by decide

def Outcome.Unbroken : Outcome → Prop
  | .done res ex => res.Unbroken ∧ ex.Unbroken
  | .raised ex | .dangling ex | .running ex => ex.Unbroken

theorem read_unbroken (file : Text) : ∀ r ∈ Journal.read file, Unbroken r.sql := by
  intro r hr
  obtain ⟨line, hline, hread⟩ := List.mem_filterMap.mp hr
  unfold Journal.readLine at hread
  split at hread
  · cases hread
  · dsimp only at hread
    split at hread
    · cases hread
      exact ((splitOn_unbroken file line hline).subset (List.drop_subset _ _)).subset
        (List.drop_subset _ _)
    · cases hread

theorem parseTsString_tidy (s : Text) : Tidy (fun _ => True) (parseTsString s) := by
  unfold parseTsString
  split
  · dsimp only
    split
    · exact (by decide : Unbroken "timestamp out of range".toList)
    · trivial
  · exact (by decide : Unbroken "bad timestamp format".toList)

theorem prepareRevert_tidy (tick : Tick) (allow : Bool) (ex : Executor) (hint : Name) (ts : Text) :
    Tidy (fun p => ∀ r ∈ p.2.2.1, Unbroken r.sql) (prepareRevert tick allow hint ts ex) := by
  unfold prepareRevert
  split
  · exact (by decide : Unbroken "mutations disabled".toList)
  split
  · exact (by decide : Unbroken "USE database first".toList)
  split
  · rename_i hts
    have htidy := parseTsString_tidy ts
    rwa [hts] at htidy
  split
  · exact (by decide : Unbroken "unknown table in REVERT hint".toList)
  · exact fun r hr => read_unbroken _ r ((tick.sortRecs.perm _).mem_iff.mp hr)

theorem replay_unbroken {exec : Nat → Statement → Executor → Outcome}
    (hexec : ∀ i st ex, st.Unbroken → ex.Unbroken → (exec i st ex).Unbroken) (held : Held) (ts i : Nat)
    {recs : List JournalRecord} (hrecs : ∀ r ∈ recs, Unbroken r.sql) (h : ex.Unbroken) :
    (replay exec held ts i recs ex).Unbroken := by
  induction recs generalizing i ex with
  | nil => exact ⟨⟨(by decide : Unbroken "reverted".toList), (by decide : Unbroken "\x7b\x7d".toList)⟩, h⟩
  | cons r recs ih =>
    obtain ⟨hr, hrecs⟩ := List.forall_mem_cons.mp hrecs
    unfold replay
    split
    · exact h
    split
    · exact ih (i + 1) hrecs h
    obtain ⟨hparsed, herror⟩ := Parser.parse_unbroken (hr.append blank_unbroken)
    split
    · rename_i m hm
      exact ⟨failed_unbroken (.append (by decide) (herror m hm)), h⟩
    · exact h
    · exact h
    · rename_i st rest hst
      have hrun := hexec i st ex (hparsed st rest hst) h
      split
      · rename_i hdone
        rw [hdone] at hrun
        split
        · exact ih (i + 1) hrecs hrun.2
        · exact hrun
      · exact hrun

theorem execStatement_unbroken (ticks : List Nat → Tick) (hprint : W.print.Unbroken) (k : Nat)
    (path : List Nat) (hst : st.Unbroken) (allow : Bool) (h : ex.Unbroken) :
    (execStatement W ticks k path st allow ex).Unbroken := by
  induction k using Nat.strong_induction_on generalizing path st allow ex with
  | _ k ih =>
  cases hr : isRevert st with
  | false =>
    rw [execStatement_simple hr]
    have hafter := after_unbroken (W := W) ⟨st, allow, ticks path, ex⟩ hst h
    rw [after_simple hr] at hafter
    exact ⟨execSimple_unbroken hprint h hst, hafter⟩
  | true =>
    cases st with
    | revert hint ts =>
      have hprep := prepareRevert_tidy (ticks path) allow ex hint ts
      have hafter := after_unbroken (W := W) ⟨.revert hint ts, allow, ticks path, ex⟩ hst h
      simp only [Execution.after] at hafter
      rw [execStatement]
      cases hp : prepareRevert (ticks path) allow hint ts ex with
      | error m =>
        rw [hp] at hprep
        exact ⟨failed_unbroken hprep, h⟩
      | ok p =>
        rw [hp] at hprep hafter
        cases k with
        | zero => exact hafter
        | succ k =>
          exact replay_unbroken (fun i st ex hst h => ih k k.lt_succ_self (path ++ [i]) hst true h)
            _ _ _ hprep hafter
    | _ => cases hr

theorem trim_unbroken (h : Unbroken m) : Unbroken (trim m) :=
  (h.subset (List.rdropWhile_prefix _ _).subset).subset (List.dropWhile_suffix _).subset

theorem statementText_unbroken (h : Unbroken m) : Unbroken (statementText m) := by
  unfold statementText
  refine trim_unbroken ?_
  split
  · exact (trim_unbroken h).subset (List.dropLast_subset _)
  · exact trim_unbroken h

theorem authenticate_unbroken {ticks : List Nat → Tick} {jwt : Text}
    (h : authenticate W ticks jwt ex = .error (.err m)) : Unbroken m := by
  unfold authenticate at h
  split at h
  · cases h
  cases hv : jwtVerify W.hmac (ticks []).verifySec W.jwtSecret jwt with
  | ok jp =>
    rw [hv] at h
    cases h
  | error e =>
    rw [hv] at h
    cases h
    unfold jwtVerify at hv
    split at hv
    · cases hv
      decide
    dsimp only at hv
    split at hv
    · cases hv
      decide
    split at hv
    · cases hv
      decide
    split at hv
    · rename_i hexp
      cases hv
      unfold payloadExp at hexp
      split at hexp
      · cases hexp
      · split at hexp <;> cases hexp
    · split at hv <;> cases hv
      decide

theorem forbidden_unbroken (h : forbidden ex st = some m) : Unbroken m := by
  unfold forbidden at h
  split at h
  · cases h
  split at h
  · cases h
  split at h
  · cases h
    decide
  split at h <;> cases h
  decide

theorem conclude_unbroken {ticks : List Nat → Tick} {r : Request} {before : Catalog} {o : Outcome}
    (h : o.Unbroken) : (conclude ticks r before st o).Unbroken := by
  cases o with
  | done res ex =>
    obtain ⟨files, hend⟩ | ⟨-, hend⟩ := conclude_done ticks r before st res _
    · rw [hend]
      exact ⟨h.1, h.2.pool, h.2.databases⟩
    · rw [hend]
      exact h.2
  | _ => exact h

theorem execute_unbroken {ticks : List Nat → Tick} {r : Request} (hprint : W.print.Unbroken) (k : Nat)
    (hsql : Unbroken r.sql) (h : ex.Unbroken) : (execute W ticks k r ex).Unbroken := by
  unfold execute
  cases hauth : authenticate W ticks r.jwt ex with
  | error e =>
    cases e with
    | raised => exact h
    | err m => exact ⟨failed_unbroken (.append (by decide) (authenticate_unbroken hauth)), h⟩
  | ok ex₁ =>
    have h₁ : ex₁.Unbroken := by
      obtain ⟨u, rfl⟩ := authenticate_state hauth
      exact ⟨h.pool, h.databases⟩
    obtain ⟨hparsed, herror⟩ :=
      Parser.parse_unbroken ((statementText_unbroken hsql).append blank_unbroken)
    dsimp only
    split
    · rename_i m hm
      exact ⟨failed_unbroken (herror m hm), h₁⟩
    · exact h₁
    · exact h₁
    rename_i st rest hst
    split
    · rename_i m hm
      exact ⟨failed_unbroken (forbidden_unbroken hm), h₁⟩
    exact conclude_unbroken (execStatement_unbroken ticks hprint k [] (hparsed st rest hst)
      r.allowMutations h₁)

end Dbms.Exec
