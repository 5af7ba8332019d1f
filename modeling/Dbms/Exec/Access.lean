import Dbms.Auth.RbacCheck
import Dbms.Exec.Every

/-! Who may do what: the permission gate, grants, and the user that the executor remembers. -/

open Dbms.Core Dbms.Lib Dbms.Sql Dbms.Auth

namespace Dbms.Exec

/-- The token of the call's request is valid and names the user. -/
def VerifiesFor (W : World) (u : Text) (c : Call) : Prop :=
  c.request.jwt ≠ [] ∧ ∃ exp,
    jwtVerify W.hmac (c.ticks []).verifySec W.jwtSecret c.request.jwt = .ok ⟨u, exp⟩

def gatePerm : Statement → Option Perm
  | .select .. => some .read
  | .insert .. | .update .. | .delete .. | .revert .. => some .writeData
  | _ => none

/-- Why a request is turned away before its statement runs, if it is. -/
def decision (W : World) (ticks : List Nat → Tick) (r : Request) (ex : Executor) : Option Text :=
  match authenticate W ticks r.jwt ex with
  | .error (.err m) => some ("auth: ".toList ++ m)
  | .error .raised => none
  | .ok ex =>
    match Parser.parse (statementText r.sql ++ [' ']) with
    | .error (.parse m) => some m
    | .error _ => none
    | .ok (st, _) => forbidden ex st

section
variable {W : World} {ticks : List Nat → Tick} {n : Nat} {r : Request} {ex ex' : Executor}
  {st : Statement} {rest u d m : Text} {c : Call}

theorem execute_of_decision (h : decision W ticks r ex = some m) :
    ∃ u, execute W ticks n r ex = .done (.failed m) { ex with rbacUser := u } := by
  unfold decision at h
  unfold execute
  cases hauth : authenticate W ticks r.jwt ex with
  | error err =>
    refine ⟨ex.rbacUser, ?_⟩
    rw [hauth] at h
    cases err with
    | err e =>
      cases h
      rfl
    | raised => cases h
  | ok ex₁ =>
    obtain ⟨u, rfl⟩ := authenticate_state hauth
    refine ⟨u, ?_⟩
    rw [hauth] at h
    simp only at h ⊢
    cases hparse : Parser.parse (statementText r.sql ++ [' ']) with
    | error err =>
      rw [hparse] at h
      cases err with
      | parse e =>
        cases h
        rfl
      | _ => cases h
    | ok parsed =>
      rw [hparse] at h
      simp only at h ⊢
      rw [h]

/-- A request that is not turned away runs its statement, unless reading it throws. -/
theorem execute_of_admitted (h : decision W ticks r ex = none) :
    (∃ ex', execute W ticks n r ex = .raised ex' ∨ execute W ticks n r ex = .running ex') ∨
      ∃ ex₁ st rest, authenticate W ticks r.jwt ex = .ok ex₁ ∧
        Parser.parse (statementText r.sql ++ [' ']) = .ok (st, rest) ∧ forbidden ex₁ st = none ∧
        execute W ticks n r ex = conclude ticks r ex₁.catalog st
          (execStatement W ticks n [] st r.allowMutations ex₁) := by
  unfold decision at h
  cases hauth : authenticate W ticks r.jwt ex with
  | error err =>
    rw [hauth] at h
    cases err with
    | err e => cases h
    | raised => exact .inl ⟨ex, .inl (by simp only [execute, hauth])⟩
  | ok ex₁ =>
    rw [hauth] at h
    cases hparse : Parser.parse (statementText r.sql ++ [' ']) with
    | error err =>
      rw [hparse] at h
      cases err with
      | parse e => cases h
      | outOfRange => exact .inl ⟨ex₁, .inl (by simp only [execute, hauth, hparse])⟩
      | stuck => exact .inl ⟨ex₁, .inr (by simp only [execute, hauth, hparse])⟩
    | ok parsed =>
      obtain ⟨st, rest⟩ := parsed
      rw [hparse] at h
      exact .inr ⟨ex₁, st, rest, rfl, rfl, h, execute_eq hauth hparse h⟩

theorem forbidden_eq_none : forbidden ex st = none ↔
    ∀ cur p, ex.catalog.current = some cur → gatePerm st = some p →
      ex.rbacUser = [] ∨ ex.rbac.check ex.rbacUser cur.name p = true := by
  unfold forbidden
  cases hcur : ex.catalog.current with
  | none => simp
  | some cur =>
    by_cases hu : ex.rbacUser = []
    · simp [hu]
    · -- the texts only get in the way
      generalize "forbidden: read".toList = m₁, "forbidden: write".toList = m₂
      cases st <;> simp [hu, gatePerm, needsReadPerm, needsWritePerm, isMutating, isDdl]

theorem authenticate_token (hjwt : VerifiesFor W u c) :
    authenticate W c.ticks c.request.jwt ex = .ok { ex with rbacUser := u } := by
  obtain ⟨hne, exp, hv⟩ := hjwt
  unfold authenticate
  rw [if_neg hne, hv]
  rfl

def Call.tokenless (c : Call) : Call := { c with request := { c.request with jwt := [] } }

theorem outcome_token (hjwt : VerifiesFor W u c) :
    c.outcome W ex = c.tokenless.outcome W { ex with rbacUser := u } := by
  have hnone : authenticate W c.tokenless.ticks c.tokenless.request.jwt { ex with rbacUser := u } =
      .ok { ex with rbacUser := u } := if_pos rfl
  unfold Call.outcome execute
  rw [authenticate_token hjwt, hnone]
  rfl

/-! Permissions of single requests. -/

def targetDb (cat : Catalog) : Statement → Option Database
  | .select _ table _ | .insert table _ _ | .update table _ _ | .delete table _ =>
    (resolveDatabase cat table.db).map Prod.snd
  | .createTable table _ | .dropTable table => (resolveDatabase cat table.db).map Prod.snd
  | .dropDatabase name => cat.getDatabase name
  | .revert .. => cat.current
  | _ => none

theorem targetDb_delete (cat : Catalog) (t : Text) (w : WhereClause) :
    targetDb cat (.delete ⟨[], t⟩ w) = cat.current := by
  show (cat.current.map fun D => (cat.current_, D)).map Prod.snd = cat.current
  cases cat.current <;> rfl

/-- The permission for a statement on its database. -/
def permOf : Statement → Option Perm
  | .select .. => some .read
  | .insert .. | .update .. | .delete .. | .revert .. => some .writeData
  | .createTable .. => some .createTable
  | .dropTable _ => some .dropTable
  | .dropDatabase _ => some .dropDatabase
  | _ => none

/-- The call returns `ok` or alters the catalog. -/
def HasEffect (W : World) (c : Call) (ex : Executor) : Prop :=
  (c.outcome W ex).ok = true ∨ (c.outcome W ex).state.catalog ≠ ex.catalog

/-- A request with an effect had the permission for it. -/
def Permitted (W : World) (c : Call) (ex : Executor) : Prop :=
  ∀ u st rest D p, VerifiesFor W u c →
    Parser.parse (statementText c.request.sql ++ [' ']) = .ok (st, rest) →
    targetDb ex.catalog st = some D → permOf st = some p → HasEffect W c ex →
    ex.rbac.check u D.name p = true

theorem gatePerm_of_ddl (h : isDdl st = true) : gatePerm st = none := by
  cases st <;> first | rfl | cases h

theorem gatePerm_of_not_ddl (h : isDdl st = false) : gatePerm st = permOf st := by
  cases st <;> first | rfl | cases h

theorem HasEffect.decision (h : HasEffect W c ex) : decision W c.ticks c.request ex = none := by
  cases hd : Exec.decision W c.ticks c.request ex with
  | none => rfl
  | some m =>
    obtain ⟨u, hrun⟩ := execute_of_decision (n := c.depth) hd
    have hout : c.outcome W ex = .done (.failed m) { ex with rbacUser := u } := hrun
    rw [HasEffect, hout] at h
    rcases h with hok | hcat
    · cases hok
    · exact absurd rfl hcat

/-- For a user with a name and on the current database, every effect of reading or writing rows was
permitted, and DDL is never turned away. -/
theorem permitted_of_current {D : Database} (hu : u ≠ []) (hjwt : VerifiesFor W u c)
    (hparse : Parser.parse (statementText c.request.sql ++ [' ']) = .ok (st, rest))
    (htarget : targetDb ex.catalog st = some D) (hcur : ex.catalog.current = targetDb ex.catalog st) :
    (isDdl st = true → decision W c.ticks c.request ex = none) ∧
      (isDdl st = false → ∀ p, permOf st = some p → HasEffect W c ex →
        ex.rbac.check u D.name p = true) := by
  have hdecision : decision W c.ticks c.request ex = forbidden { ex with rbacUser := u } st := by
    unfold decision
    simp only [authenticate_token hjwt, hparse]
  constructor
  · intro hddl
    rw [hdecision, forbidden_eq_none]
    intro cur p _ hp
    rw [gatePerm_of_ddl hddl] at hp
    cases hp
  · intro hddl p hp heffect
    have hpass := forbidden_eq_none.mp (hdecision.symm.trans heffect.decision) D p
      (hcur.trans htarget)
    exact (hpass (gatePerm_of_not_ddl hddl ▸ hp)).resolve_left hu

def unshared : Executor :=
  let ex := sampleRun ["CREATE DATABASE d", "USE d", "CREATE TABLE t (id INT INDEXED)"]
  { ex with rbac := { ex.rbac with dbDefaults := ∅ } }

/-- The call is allowed although the user `u` lacks the permission that its statement `st` on the
database `d` is for. -/
def Slips (W : World) (u d : Text) (st : Statement) (p : Perm) (c : Call) (ex : Executor) : Prop :=
  Parser.parse (statementText c.request.sql ++ [' ']) = .ok (st, [' ']) ∧
    (targetDb ex.catalog st).map Database.name = some d ∧
    (c.tokenless.outcome W { ex with rbacUser := u }).ok = true ∧ ex.rbac.check u d p = false

theorem Slips.not_permitted {p : Perm} (h : Slips W u d st p c ex) (hp : permOf st = some p)
    (hjwt : VerifiesFor W u c) : ¬Permitted W c ex := by
  intro hall
  obtain ⟨hparse, htarget, hok, hno⟩ := h
  obtain ⟨D, hD, rfl⟩ := Option.map_eq_some_iff.mp htarget
  rw [← outcome_token hjwt] at hok
  rw [hall u st [' '] D p hjwt hparse hD hp (.inl hok)] at hno
  cases hno

theorem tokenOf_verifies :
    jwtVerify sampleWorld.hmac 1700000000 sampleWorld.jwtSecret (tokenOf userMac) =
        .ok ⟨['u'], 1700003600⟩ ∧
      jwtVerify sampleWorld.hmac 1700000000 sampleWorld.jwtSecret (tokenOf namelessMac) =
        .ok ⟨[], 1700003600⟩ := by decide +kernel

theorem verifiesFor_user (nowUs : Nat) (sql : String) :
    VerifiesFor sampleWorld ['u'] (sampleCall nowUs sql (tokenOf userMac)) :=
  ⟨show tokenOf userMac ≠ [] by decide, 1700003600, tokenOf_verifies.1⟩

theorem verifiesFor_nameless (nowUs : Nat) (sql : String) :
    VerifiesFor sampleWorld [] (sampleCall nowUs sql (tokenOf namelessMac)) :=
  ⟨show tokenOf namelessMac ≠ [] by decide, 1700003600, tokenOf_verifies.2⟩

def unselected : Executor :=
  { unshared with catalog := { unshared.catalog with current_ := [] } }

theorem slips : Slips sampleWorld ['u'] ['d'] (.dropDatabase ['d']) .dropDatabase
        (sampleCall 0 "DROP DATABASE d" (tokenOf userMac)) unshared ∧
      Slips sampleWorld ['u'] ['d'] (.select [{ col := ['*'] }] ⟨['d'], ['t']⟩ {}) .read
        (sampleCall 0 "SELECT * FROM d.t" (tokenOf userMac)) unselected ∧
      Slips sampleWorld [] ['d'] (.delete ⟨[], ['t']⟩ {}) .writeData
        (sampleCall 0 "DELETE FROM t" (tokenOf namelessMac)) unshared := by
  unfold Slips
  decide +kernel

/-- DDL needs no permission, and nothing does while no database is selected or for a user without
a name. -/
theorem not_permitted :
    ¬Permitted sampleWorld (sampleCall 0 "DROP DATABASE d" (tokenOf userMac)) unshared ∧
    ¬Permitted sampleWorld (sampleCall 0 "SELECT * FROM d.t" (tokenOf userMac))
      { unshared with catalog := { unshared.catalog with current_ := [] } } ∧
    ¬Permitted sampleWorld (sampleCall 0 "DELETE FROM t" (tokenOf namelessMac)) unshared := by
  obtain ⟨hdrop, hselect, hdelete⟩ := slips
  exact ⟨hdrop.not_permitted rfl (verifiesFor_user 0 _),
    hselect.not_permitted rfl (verifiesFor_user 0 _),
    hdelete.not_permitted rfl (verifiesFor_nameless 0 _)⟩

def shared : Executor :=
  sampleRun ["CREATE DATABASE d", "USE d", "CREATE TABLE t (id INT INDEXED)"]

theorem shared_delete : Parser.parse (statementText "DELETE FROM t".toList ++ [' ']) =
        .ok (.delete ⟨[], ['t']⟩ {}, [' ']) ∧
      (targetDb shared.catalog (.delete ⟨[], ['t']⟩ {})).isSome = true ∧
      ((sampleCall 0 "DELETE FROM t" (tokenOf userMac)).tokenless.outcome sampleWorld
        { shared with rbacUser := ['u'] }).ok = true := by decide +kernel

theorem permitted_of_current_delete :
    (shared.catalog.current.map fun D => shared.rbac.check ['u'] D.name .writeData) = some true := by
  obtain ⟨hparse, hsome, hok⟩ := shared_delete
  obtain ⟨D, hD⟩ := Option.isSome_iff_exists.mp hsome
  have hcur : shared.catalog.current = targetDb shared.catalog (.delete ⟨[], ['t']⟩ {}) :=
    (targetDb_delete shared.catalog ['t'] {}).symm
  have hjwt := verifiesFor_user 0 "DELETE FROM t"
  rw [← outcome_token hjwt] at hok
  rw [hcur, hD]
  exact congrArg some ((permitted_of_current (by decide) hjwt hparse hD hcur).2 rfl .writeData rfl
    (.inl hok))

/-! The user that the executor remembers. -/

/-- The gate treats the users alike: both pass or both do not. -/
def Alike (rbac : Rbac) (db : Text) (p : Perm) (u v : Text) : Prop :=
  (u = [] ∨ rbac.check u db p = true) ↔ (v = [] ∨ rbac.check v db p = true)

theorem forbidden_message {m m' : Text} (h : forbidden ex st = some m)
    (h' : forbidden ex' st = some m') : m = m' := by
  have hmessage : ∀ ex m, forbidden ex st = some m → m =
      if needsReadPerm st then "forbidden: read".toList else "forbidden: write".toList := by
    intro ex m h
    unfold forbidden at h
    generalize "forbidden: read".toList = m₁, "forbidden: write".toList = m₂ at h ⊢
    split at h
    · cases h
    cases st <;> simp_all [needsReadPerm, needsWritePerm, isMutating, isDdl]
  rw [hmessage ex m h, hmessage ex' m' h']

theorem forbidden_eq_iff : forbidden ex st = forbidden ex' st ↔
    (forbidden ex st = none ↔ forbidden ex' st = none) := by
  refine ⟨fun h => by rw [h], fun h => ?_⟩
  cases hm : forbidden ex st with
  | none => exact (h.mp hm).symm
  | some m =>
    cases hm' : forbidden ex' st with
    | none => cases hm.symm.trans (h.mpr hm')
    | some m' => rw [forbidden_message hm hm']

theorem forbidden_congr (hcat : ex'.catalog = ex.catalog) (hrbac : ex'.rbac = ex.rbac)
    (huser : ex'.rbacUser = ex.rbacUser) : forbidden ex' st = forbidden ex st := by
  unfold forbidden
  rw [hcat, hrbac, huser]

/-- With a token the remembered user is overwritten before the gate reads it. -/
theorem decision_of_token (hjwt : r.jwt ≠ []) (hcat : ex'.catalog = ex.catalog)
    (hrbac : ex'.rbac = ex.rbac) : decision W ticks r ex' = decision W ticks r ex := by
  unfold decision authenticate
  rw [if_neg hjwt, if_neg hjwt]
  cases jwtVerify W.hmac (ticks []).verifySec W.jwtSecret r.jwt with
  | error e => cases e <;> rfl
  | ok jp =>
    have hgate : ∀ st, forbidden { ex' with rbacUser := jp.sub } st =
        forbidden { ex with rbacUser := jp.sub } st := fun st => forbidden_congr hcat hrbac rfl
    simp only [Except.map, hgate]

theorem forbidden_eq_iff_alike (hcat : ex'.catalog = ex.catalog) (hrbac : ex'.rbac = ex.rbac) :
    forbidden ex st = forbidden ex' st ↔
      ∀ cur p, ex.catalog.current = some cur → gatePerm st = some p →
        Alike ex.rbac cur.name p ex.rbacUser ex'.rbacUser := by
  rw [forbidden_eq_iff, forbidden_eq_none, forbidden_eq_none, hcat, hrbac]
  cases ex.catalog.current with
  | none => simp
  | some cur =>
    cases gatePerm st with
    | none => simp
    | some p => simp [Alike]

theorem decision_eq_iff (hcat : ex'.catalog = ex.catalog) (hrbac : ex'.rbac = ex.rbac) :
    decision W ticks r ex = decision W ticks r ex' ↔ r.jwt ≠ [] ∨
      ∀ st rest cur p, Parser.parse (statementText r.sql ++ [' ']) = .ok (st, rest) →
        ex.catalog.current = some cur → gatePerm st = some p →
        Alike ex.rbac cur.name p ex.rbacUser ex'.rbacUser := by
  by_cases hjwt : r.jwt = []
  · have hnone : ∀ ex, authenticate W ticks r.jwt ex = .ok ex := fun ex => if_pos hjwt
    rw [or_iff_right (not_not.mpr hjwt)]
    unfold decision
    rw [hnone, hnone]
    cases hparse : Parser.parse (statementText r.sql ++ [' ']) with
    | error e => cases e <;> simp
    | ok res =>
      obtain ⟨st, rest⟩ := res
      show forbidden ex st = forbidden ex' st ↔ _
      rw [forbidden_eq_iff_alike hcat hrbac]
      constructor
      · intro h st' rest' cur p heq hcur hp
        cases heq
        exact h cur p hcur hp
      · intro h cur p hcur hp
        exact h st rest cur p rfl hcur hp
  · exact iff_of_true (decision_of_token hjwt hcat hrbac).symm (.inl hjwt)

theorem runAll_of_parse_error {e : ParseErr} (hjwt : c.request.jwt = [])
    (h : Parser.parse (statementText c.request.sql ++ [' ']) = .error e) :
    runAll W [c] ex = ex := by
  show (execute W c.ticks c.depth c.request ex).state = ex
  unfold execute authenticate
  simp only [hjwt, if_true, h]
  cases e <;> rfl

theorem parse_nothing : Parser.parse (statementText "".toList ++ [' ']) =
    .error (.parse "statement must start with keyword".toList) := by decide

theorem idle_state (ex : Executor) : runAll sampleWorld [sampleCall 0 ""] ex = ex :=
  runAll_of_parse_error rfl parse_nothing

theorem idle_state_token (ex : Executor) :
    runAll sampleWorld [sampleCall 0 "" (tokenOf userMac)] ex = { ex with rbacUser := ['u'] } := by
  have hrun : (sampleCall 0 "" (tokenOf userMac)).outcome sampleWorld ex = _ :=
    outcome_token (verifiesFor_user 0 "")
  exact (congrArg Outcome.state hrun).trans (idle_state { ex with rbacUser := ['u'] })

theorem unshared_select : decision sampleWorld (sampleTick 0) { sql := "SELECT * FROM t".toList }
        { unshared with rbacUser := ['u'] } ≠
      decision sampleWorld (sampleTick 0) { sql := "SELECT * FROM t".toList } unshared := by
  decide +kernel

end
end Dbms.Exec
