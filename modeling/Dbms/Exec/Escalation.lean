import Dbms.Exec.Access

/-! Whether a user without any permission on a database can get one. -/

open Dbms.Core Dbms.Lib Dbms.Sql Dbms.Auth

namespace Dbms.Exec

/-- The statement neither creates the database nor grants the user a permission on it. -/
def Harmless (u d : Text) : Statement → Bool → Executor → Prop
  | .createDatabase name, allow, ex => ¬(allow = true ∧ name = d ∧ d ∉ ex.catalog.dbs)
  | .authGrant db principal permission, _, ex =>
    ¬(d = db ∧ ex.rbac.Concerns u principal ∧ ∃ mask, permFromString permission = .ok mask)
  | _, _, _ => True

def Excluded (u d : Text) (ex : Executor) : Prop := ∀ p, ex.rbac.check u d p = false

section
variable {W : World} {ticks : List Nat → Tick} {tick : Tick} {path : List Nat} {allow : Bool}
  {u d : Text} {ex ex' : Executor} {st : Statement}

theorem Excluded.congr (h : Excluded u d ex) (hrbac : ex'.rbac = ex.rbac) : Excluded u d ex' := by
  intro p
  rw [hrbac]
  exact h p

theorem ifAllowed_cases {P : Executor → Prop} {k : ExecResult × Executor} (hno : P ex)
    (hyes : allow = true → P k.2) : P (ifAllowed allow ex k).2 := by
  unfold ifAllowed
  split
  · rename_i hallow
    exact hyes hallow
  · exact hno

theorem withCatalog_rbac (c : Except Text Catalog) : (withCatalog ex c).2.rbac = ex.rbac := by
  cases c <;> rfl

theorem execSelect_rbac (items : List SelectItem) (table : Name) (w : WhereClause) :
    (execSelect W tick ex items table w).2.rbac = ex.rbac := by
  unfold execSelect
  split
  · rfl
  · dsimp only
    split <;> rfl

theorem execSimple_excluded (hI : Excluded u d ex) (hst : Harmless u d st allow ex) :
    Excluded u d (execSimple W tick allow ex st).2 := by
  cases st with
  | createDatabase name =>
    apply ifAllowed_cases hI
    intro hallow
    cases hc : ex.catalog.createDatabase name with
    | error err => exact hI
    | ok cat =>
      obtain ⟨hnew, -⟩ := createDatabase_ok hc
      have hne : d ≠ name := fun heq => hst ⟨hallow, heq.symm, heq ▸ hnew⟩
      intro p
      exact (Rbac.check_grantDefault hne).trans (hI p)
  | dropDatabase name =>
    apply ifAllowed_cases hI
    intro _
    exact hI.congr (withCatalog_rbac _)
  | use name => exact hI.congr (withCatalog_rbac _)
  | createTable table columns =>
    apply ifAllowed_cases hI
    intro _
    split
    · exact hI
    · exact hI.congr (withCatalog_rbac _)
  | dropTable table =>
    apply ifAllowed_cases hI
    intro _
    split
    · exact hI
    · exact hI.congr (withCatalog_rbac _)
  | insert table cols rows =>
    apply ifAllowed_cases hI
    intro _
    split <;> exact hI
  | update table sets w =>
    apply ifAllowed_cases hI
    intro _
    split <;> exact hI
  | delete table w =>
    apply ifAllowed_cases hI
    intro _
    split <;> exact hI
  | select items table w => exact hI.congr (execSelect_rbac items table w)
  | authCreateUser user password =>
    show Excluded u d (withRbac ex (ex.rbac.createUser W.pbkdf2 tick.salt user password)).2
    cases hr : ex.rbac.createUser W.pbkdf2 tick.salt user password with
    | error err => exact hI
    | ok r => exact fun p => Rbac.check_createUser hr (hI p)
  | authCreateGroup group =>
    show Excluded u d (withRbac ex (ex.rbac.createGroup group)).2
    cases hr : ex.rbac.createGroup group with
    | error err => exact hI
    | ok r => exact fun p => (Rbac.check_createGroup hr).trans (hI p)
  | authLogin user password =>
    show Excluded u d (execAuthLogin W tick ex user password).2
    unfold execAuthLogin
    split <;> exact hI
  | authGrant db principal permission =>
    show Excluded u d (execAuthGrant ex db principal permission).2
    unfold execAuthGrant
    cases hmask : permFromString permission with
    | error err => exact hI
    | ok mask =>
      have hother : ¬(d = db ∧ ex.rbac.Concerns u principal) :=
        fun h => hst ⟨h.1, h.2, mask, hmask⟩
      exact fun p => Rbac.check_grant hother (hI p)
  | revert hint ts => exact hI

theorem prepareRevert_rbac {hint : Name} {ts : Text} {db : Held} {ts' : Nat}
    {recs : List JournalRecord} (h : prepareRevert tick allow hint ts ex = .ok (db, ts', recs, ex')) :
    ex'.rbac = ex.rbac := by
  unfold prepareRevert at h
  split at h
  · cases h
  split at h
  · cases h
  split at h
  · cases h
  split at h
  · cases h
  · cases h
    rfl

/-- In a run without a GRANT to the user on the database, and in which the database is not created,
the user gets no permission on it. -/
theorem run_excluded {cs : List Call} (hcs : EachCall W (EveryRequest W (Harmless u d)) cs ex)
    (hno : Excluded u d ex) : Excluded u d (runAll W cs ex) := by
  apply EachCall.rule _ hcs hno
  intro c ex hI hc
  apply EveryRequest.rule _ _ _ _ hc hI
  · exact fun ex v hI => hI
  · exact fun ex files hI => hI
  · exact fun path st allow ex _ hI hst => execSimple_excluded hI hst
  · exact fun path allow hint ts ex name ts' recs ex' hI hp => hI.congr (prepareRevert_rbac hp)

end

def grantToSelf : Call := sampleCall 0 "GRANT write ON d TO USER u" (tokenOf userMac)

theorem grantToSelf_run :
    (∀ p ∈ [Perm.read, .writeData, .createTable, .dropTable, .dropDatabase],
      unshared.rbac.check ['u'] ['d'] p = false) ∧
    (['d'] ∈ (grantToSelf.tokenless.outcome sampleWorld
        { unshared with rbacUser := ['u'] }).state.catalog.dbs ∧ ['d'] ∈ unshared.catalog.dbs) ∧
    (grantToSelf.tokenless.outcome sampleWorld
      { unshared with rbacUser := ['u'] }).state.rbac.check ['u'] ['d'] .writeData = true := by
  decide +kernel

theorem excluded_unshared : Excluded ['u'] ['d'] unshared := by
  intro p
  exact grantToSelf_run.1 p (by cases p <;> decide)

/-- A user grants himself a permission. -/
theorem run_escalates : ¬ ∀ (W : World) (ex : Executor) (u d : Text) (cs : List Call),
    Excluded u d ex → EachCall W (fun c _ => VerifiesFor W u c) cs ex →
    EachCall W (fun c ex => d ∈ (c.outcome W ex).state.catalog.dbs ↔ d ∈ ex.catalog.dbs) cs ex →
    Excluded u d (runAll W cs ex) := by
  intro hall
  have hjwt : VerifiesFor sampleWorld ['u'] grantToSelf := verifiesFor_user 0 _
  have hrun := grantToSelf_run.2
  rw [← outcome_token hjwt] at hrun
  obtain ⟨hdbs, hcheck⟩ := hrun
  generalize grantToSelf = c at hjwt hdbs hcheck
  have hafter := hall sampleWorld unshared ['u'] ['d'] [c] excluded_unshared
    (eachCall_singleton.mpr hjwt) (eachCall_singleton.mpr (iff_of_true hdbs.1 hdbs.2)) .writeData
  exact absurd (hcheck.symm.trans hafter) (by decide)

theorem parse_grantToOther :
    Parser.parse (statementText "GRANT write ON d TO USER v".toList ++ [' ']) =
      .ok (.authGrant ['d'] "user:v".toList "write".toList, [' ']) := by decide +kernel

/-- A grant to somebody else. -/
theorem run_excluded_other : Excluded ['u'] ['d'] (runAll sampleWorld
    [sampleCall 0 "GRANT write ON d TO USER v" (tokenOf userMac)] unshared) := by
  apply run_excluded
  · rw [eachCall_singleton]
    intro ex₁ st rest hauth hparse hgate
    obtain ⟨rfl, rfl⟩ := Prod.mk.inj (Except.ok.inj (parse_grantToOther.symm.trans hparse))
    have hconcerns : ¬ex₁.rbac.Concerns ['u'] "user:v".toList := by
      rintro (hown | ⟨v, hv, g, hg, hkey⟩)
      · revert hown
        decide
      · cases hkey
    refine ⟨fun h => hconcerns h.2.1, ?_⟩
    rintro hint ts name ts' recs ex' hrevert
    cases hrevert
  · exact excluded_unshared

end Dbms.Exec
