import Dbms.Exec.Escalation
import Dbms.Exec.Trace

/-! Rights over whole runs: where they come from, and that they stay. -/

open Dbms.Core Dbms.Lib Dbms.Sql Dbms.Auth

namespace Dbms.Exec

/-- The statement creates the database, or it grants the user the permission on it. -/
def Execution.Gives (e : Execution) (u d : Text) (p : Perm) : Prop :=
  match e.statement with
  | .createDatabase name => e.allow = true ∧ name = d ∧ d ∉ e.before.catalog.dbs
  | .authGrant db principal permission =>
    d = db ∧ e.before.rbac.Concerns u principal ∧ permOfName (toLower permission) = some p
  | _ => False

section
variable {W : World} {tick : Tick} {allow : Bool} {u d : Text} {p : Perm} {ex : Executor}
  {st : Statement} {cs : List Call}

theorem ifAllowed_rbac {k : ExecResult × Executor} (h : k.2.rbac = ex.rbac) :
    (ifAllowed allow ex k).2.rbac = ex.rbac :=
  ifAllowed_cases (P := fun ex' => ex'.rbac = ex.rbac) rfl fun _ => h

def keepsRbac : Statement → Bool
  | .createDatabase _ | .authCreateUser .. | .authCreateGroup _ | .authGrant .. => false
  | _ => true

theorem after_rbac (h : keepsRbac st = true) :
    (Execution.after W ⟨st, allow, tick, ex⟩).rbac = ex.rbac := by
  cases st with
  | createDatabase | authCreateUser | authCreateGroup | authGrant => cases h
  | dropDatabase name => exact ifAllowed_rbac (withCatalog_rbac _)
  | use name => exact withCatalog_rbac _
  | createTable table columns =>
    apply ifAllowed_rbac
    split
    · rfl
    · exact withCatalog_rbac _
  | dropTable table =>
    apply ifAllowed_rbac
    split
    · rfl
    · exact withCatalog_rbac _
  | insert table cols rows =>
    apply ifAllowed_rbac
    split <;> rfl
  | update table sets w =>
    apply ifAllowed_rbac
    split <;> rfl
  | delete table w =>
    apply ifAllowed_rbac
    split <;> rfl
  | select items table w => exact execSelect_rbac items table w
  | authLogin user password =>
    show (execAuthLogin W tick ex user password).2.rbac = ex.rbac
    unfold execAuthLogin
    split <;> rfl
  | revert hint ts =>
    unfold Execution.after
    dsimp only
    split
    · rename_i hp
      exact prepareRevert_rbac hp
    · rfl

theorem after_check (e : Execution) : (e.after W).rbac.check u d p = true ↔
    e.before.rbac.check u d p = true ∨ e.Gives u d p := by
  obtain ⟨st, allow, tick, ex⟩ := e
  by_cases hst : keepsRbac st = true
  · have hno : ¬Execution.Gives ⟨st, allow, tick, ex⟩ u d p := by
      cases st <;> first | exact id | cases hst
    rw [or_iff_left hno, after_rbac hst]
  cases st with
  | createDatabase name =>
    show (execCreateDatabase allow ex name).2.rbac.check u d p = true ↔ _ ∨ (_ ∧ _ ∧ _)
    unfold execCreateDatabase ifAllowed
    cases allow with
    | false => simp
    | true =>
      by_cases hnew : name ∈ ex.catalog.dbs
      · have hno : ¬(name = d ∧ d ∉ ex.catalog.dbs) := fun h => h.2 (h.1 ▸ hnew)
        simp [Catalog.createDatabase, hnew, hno]
      · simp only [if_true, Catalog.createDatabase, if_neg hnew, true_and]
        by_cases hd : d = name
        · subst hd
          exact iff_of_true Rbac.check_grantDefault_self (.inr ⟨rfl, hnew⟩)
        · rw [Rbac.check_grantDefault hd]
          exact (or_iff_left fun h => hd h.1.symm).symm
  | authCreateUser user password =>
    show (withRbac ex (ex.rbac.createUser W.pbkdf2 tick.salt user password)).2.rbac.check u d p = true ↔
      _ ∨ False
    rw [or_false]
    cases hr : ex.rbac.createUser W.pbkdf2 tick.salt user password with
    | error err => rfl
    | ok r => rw [← Rbac.check_createUser_eq hr]; rfl
  | authCreateGroup group =>
    show (withRbac ex (ex.rbac.createGroup group)).2.rbac.check u d p = true ↔ _ ∨ False
    rw [or_false]
    cases hr : ex.rbac.createGroup group with
    | error err => rfl
    | ok r => rw [← Rbac.check_createGroup hr]; rfl
  | authGrant db principal permission =>
    show (execAuthGrant ex db principal permission).2.rbac.check u d p = true ↔ _ ∨ (_ ∧ _ ∧ _)
    unfold execAuthGrant permFromString
    cases hp : permOfName (toLower permission) with
    | none => simp [Except.map, withRbac]
    | some q =>
      rw [Option.some_inj]
      exact Rbac.check_grant_iff
  | _ => exact absurd rfl hst

/-- After a run, a user has a right on a database exactly if the user had it before or a statement
that was executed in the run gave it: rights are never taken away. -/
theorem run_check_iff : (runAll W cs ex).rbac.check u d p = true ↔
    ex.rbac.check u d p = true ∨ ∃ e ∈ trace W cs ex, e.Gives u d p :=
  trace_brings (M := fun ex => ex.rbac.check u d p = true) after_check (fun _ _ => Iff.rfl)
    fun _ _ => Iff.rfl

/-! Accounts. -/

theorem after_account {a : UserAccount} (e : Execution) (h : e.before.rbac.users.lookup u = some a) :
    (e.after W).rbac.users.lookup u = some a := by
  obtain ⟨st, allow, tick, ex⟩ := e
  by_cases hst : keepsRbac st = true
  · rwa [after_rbac hst]
  cases st with
  | createDatabase name =>
    apply ifAllowed_cases (P := fun ex' => ex'.rbac.users.lookup u = some a) h
    intro _
    split <;> exact h
  | authCreateUser user password =>
    show (withRbac ex
      (ex.rbac.createUser W.pbkdf2 tick.salt user password)).2.rbac.users.lookup u = some a
    unfold Rbac.createUser
    split
    · exact h
    · rename_i hnew
      have hne : u ≠ user := by
        rintro rfl
        exact hnew (Finmap.mem_of_lookup_eq_some h)
      exact (Finmap.lookup_insert_of_ne _ hne).trans h
  | authCreateGroup group =>
    show (withRbac ex (ex.rbac.createGroup group)).2.rbac.users.lookup u = some a
    unfold Rbac.createGroup
    split <;> exact h
  | authGrant db principal permission =>
    show (execAuthGrant ex db principal permission).2.rbac.users.lookup u = some a
    unfold execAuthGrant
    cases permFromString permission <;> exact h
  | _ => exact absurd rfl hst

theorem run_account {a : UserAccount} (h : ex.rbac.users.lookup u = some a) :
    (runAll W cs ex).rbac.users.lookup u = some a :=
  trace_keeps (I := fun ex => ex.rbac.users.lookup u = some a) (Q := fun _ => True)
    (fun e h _ => after_account e h) (fun _ _ h => h) (fun _ _ h => h) (fun _ _ => trivial) h

end
end Dbms.Exec
