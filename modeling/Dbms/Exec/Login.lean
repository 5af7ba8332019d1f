import Dbms.Auth.SignVerify
import Dbms.Exec.Rights
import Dbms.Sql.Alike

/-! Accounts from CREATE USER over LOGIN to the requests that carry the token. -/

open Dbms.Core Dbms.Lib Dbms.Sql Dbms.Auth

namespace Dbms.Exec

def tokenReply (tok : Text) : ExecResult :=
  .done ("\x7b".toList ++ jsonField "token".toList (jsonString tok) ++ "\x7d".toList)

section
variable {W : World} {ex ex' : Executor} {st : Statement} {rest user password given : Text} {c c₀ : Call}
  {res : ExecResult} {a : UserAccount}

theorem isSubject_of_login (h : Parser.parse (statementText c.request.sql ++ [' ']) =
    .ok (.authLogin user password, rest)) : IsSubject user := by
  obtain ⟨⟨word, _, s₁, -, hform⟩, -⟩ := Parser.parse_eq_ok.mp h
  obtain rfl : "LOGIN" = word := Grammar.gives_form word _ _ _ hform
  have hlogin : Grammar.login (textSource Parser.stollRange) s₁ (.authLogin user password) rest := by
    simpa [Grammar.form] using hform
  obtain ⟨_, s₂, -, name, s₃, ⟨hident, rfl, -⟩, pw, s₄, -, heq, -⟩ := hlogin
  obtain ⟨rfl, -⟩ := Statement.authLogin.inj heq
  exact isSubject_of_ident hident

theorem outcome_plain (hjwt : c.request.jwt = [])
    (hparse : Parser.parse (statementText c.request.sql ++ [' ']) = .ok (st, rest))
    (hgate : gatePerm st = none) (hmut : isMutating st = false) :
    c.outcome W ex = .done (execSimple W (c.ticks []) c.request.allowMutations ex st).1
      (execSimple W (c.ticks []) c.request.allowMutations ex st).2 := by
  have hnone : authenticate W c.ticks c.request.jwt ex = .ok ex := if_pos hjwt
  have hpass : forbidden ex st = none := forbidden_eq_none.mpr fun cur p _ hp => by
    rw [hgate] at hp
    cases hp
  have hsimple : isRevert st = false := by
    cases st <;> first | rfl | cases hmut
  unfold Call.outcome
  rw [execute_eq hnone hparse hpass, execStatement_simple hsimple, conclude_plain hmut]

theorem account_of_create (hrun : c₀.outcome W ex = .done res ex') (hok : res.ok = true)
    (hparse : Parser.parse (statementText c₀.request.sql ++ [' ']) =
      .ok (.authCreateUser user password, rest)) :
    ex'.rbac.users.lookup user =
      some ⟨user, (c₀.ticks []).salt, W.pbkdf2 password (c₀.ticks []).salt, ∅⟩ := by
  rcases execute_done hrun with ⟨hno, -⟩ | ⟨ex₁, st, rest', ex₂, -, hparse', -, hst, hex⟩
  · rw [hok] at hno
    cases hno
  obtain ⟨rfl, -⟩ := Prod.mk.inj (Except.ok.inj (hparse.symm.trans hparse'))
  rw [execStatement_simple rfl] at hst
  obtain ⟨hres, hex₂⟩ := Outcome.done.inj hst
  have hrbac : ex'.rbac = ex₂.rbac := by
    obtain ⟨ex₃, heq, files, rfl⟩ := conclude_eq_done hex
    obtain ⟨-, rfl⟩ := Outcome.done.inj heq
    rfl
  rw [hrbac, ← hex₂]
  have hdone : (withRbac ex₁ (ex₁.rbac.createUser W.pbkdf2 (c₀.ticks []).salt user password)).1.ok =
      true := by
    rw [← hok, ← hres]
    rfl
  show (withRbac ex₁ (ex₁.rbac.createUser W.pbkdf2 (c₀.ticks []).salt user password)).2.rbac.users.lookup
    user = _
  unfold Rbac.createUser at hdone ⊢
  split at hdone
  · cases hdone
  · rename_i hnew
    rw [if_neg hnew]
    exact Finmap.lookup_insert _

theorem login_eq (ha : ex.rbac.users.lookup user = some a) (hjwt : c.request.jwt = [])
    (hparse : Parser.parse (statementText c.request.sql ++ [' ']) =
      .ok (.authLogin user given, rest)) :
    c.outcome W ex = if W.pbkdf2 given a.salt = a.hash then
        .done (tokenReply (jwtSignHs256 W.hmac (c.ticks []).signSec W.jwtSecret user 3600)) ex
      else .done (.failed "bad credentials".toList) ex := by
  rw [outcome_plain hjwt hparse rfl rfl]
  show Outcome.done (execAuthLogin W (c.ticks []) ex user given).1
    (execAuthLogin W (c.ticks []) ex user given).2 = _
  unfold execAuthLogin Rbac.verifyPassword
  rw [ha]
  simp only [decide_eq_true_eq]
  split <;> rfl

theorem verify_login (hsub : IsSubject user) {s t : Int} (hsign : 0 ≤ s) (hlt : s + 3600 < 2 ^ 63) :
    jwtVerify W.hmac t W.jwtSecret (jwtSignHs256 W.hmac s W.jwtSecret user 3600) =
      if s + 3600 < t then .error (.err "jwt expired".toList) else .ok ⟨user, (s + 3600).toNat⟩ := by
  obtain ⟨exp, hexp⟩ := Int.eq_ofNat_of_zero_le (show 0 ≤ s + 3600 by omega)
  rw [jwtSignHs256_eq W.hmac W.jwtSecret user hexp, hexp, Int.toNat_natCast]
  refine (jwtVerify_own W.hmac W.jwtSecret t hsub (by omega)).trans ?_
  have hpos : exp ≠ 0 := by omega
  simp only [hpos, ne_eq, not_false_eq_true, true_and]

theorem jwtSignHs256_ne_nil (hmac : Hmac) (s : Int) (secret sub : Text) (ttl : Int) :
    jwtSignHs256 hmac s secret sub ttl ≠ [] := by
  unfold jwtSignHs256
  simp

theorem outcome_login_token (hsub : IsSubject user) {s : Int} (hsign : 0 ≤ s)
    (hlt : s + 3600 < 2 ^ 63)
    (hjwt : c.request.jwt = jwtSignHs256 W.hmac s W.jwtSecret user 3600) :
    c.outcome W ex = if (c.ticks []).verifySec ≤ s + 3600 then
        c.tokenless.outcome W { ex with rbacUser := user }
      else .done (.failed ("auth: ".toList ++ "jwt expired".toList)) ex := by
  have hne : c.request.jwt ≠ [] := hjwt ▸ jwtSignHs256_ne_nil _ _ _ _ _
  have hverify := verify_login (W := W) (t := (c.ticks []).verifySec) hsub hsign hlt
  rw [← hjwt] at hverify
  split
  · rename_i hin
    rw [if_neg (by omega)] at hverify
    exact outcome_token ⟨hne, _, hverify⟩
  · rename_i hlate
    rw [if_pos (by omega)] at hverify
    unfold Call.outcome execute authenticate
    rw [if_neg hne, hverify]
    rfl

/-- Whoever has been created logs in with a password of the same hash and no other, whatever was
executed in between, and the token of the answer stands for the user for an hour. -/
theorem login_session (hcreate : c₀.outcome W ex = .done res ex') (hok : res.ok = true)
    (hparse₀ : Parser.parse (statementText c₀.request.sql ++ [' ']) =
      .ok (.authCreateUser user password, rest))
    {rest' : Text} (hparse : Parser.parse (statementText c.request.sql ++ [' ']) =
      .ok (.authLogin user given, rest'))
    (hjwt : c.request.jwt = []) (hsign : 0 ≤ (c.ticks []).signSec)
    (hlt : (c.ticks []).signSec + 3600 < 2 ^ 63) (cs : List Call) :
    let now := runAll W cs ex'
    let salt := (c₀.ticks []).salt
    (W.pbkdf2 given salt ≠ W.pbkdf2 password salt →
      c.outcome W now = .done (.failed "bad credentials".toList) now) ∧
    (W.pbkdf2 given salt = W.pbkdf2 password salt →
      ∃ tok, c.outcome W now = .done (tokenReply tok) now ∧
        ∀ (c' : Call) (later : Executor), c'.request.jwt = tok → c'.outcome W later =
          if (c'.ticks []).verifySec ≤ (c.ticks []).signSec + 3600 then
            c'.tokenless.outcome W { later with rbacUser := user }
          else .done (.failed ("auth: ".toList ++ "jwt expired".toList)) later) := by
  intro now salt
  have haccount : now.rbac.users.lookup user = some ⟨user, salt, W.pbkdf2 password salt, ∅⟩ :=
    run_account (account_of_create hcreate hok hparse₀)
  have hlogin := login_eq (W := W) haccount hjwt hparse
  constructor
  · intro hne
    rwa [if_neg hne] at hlogin
  · intro heq
    rw [if_pos heq] at hlogin
    exact ⟨_, hlogin, fun c' later hjwt' =>
      outcome_login_token (isSubject_of_login hparse) hsign hlt hjwt'⟩

end

def createUser : Call := sampleCall 0 "CREATE USER v PASSWORD \"x\";"

def loginUser : Call := sampleCall 1 "LOGIN USER v PASSWORD \"x\""

theorem createUser_ok : (createUser.outcome sampleWorld sampleStart).ok = true ∧
    Parser.parse (statementText createUser.request.sql ++ [' ']) =
      .ok (.authCreateUser ['v'] ['x'], [' ']) ∧
    Parser.parse (statementText loginUser.request.sql ++ [' ']) =
      .ok (.authLogin ['v'] ['x'], [' ']) := by decide +kernel

theorem Outcome.eq_done_of_ok {o : Outcome} (h : o.ok = true) :
    ∃ res, o = .done res o.state ∧ res.ok = true := by
  cases o with
  | done res ex => exact ⟨res, rfl, h⟩
  | _ => cases h

theorem login_session_new :
    let now := runAll sampleWorld [sampleCall 2 "CREATE DATABASE d", sampleCall 3 "USE d"]
      (createUser.outcome sampleWorld sampleStart).state
    ∃ tok, loginUser.outcome sampleWorld now = .done (tokenReply tok) now := by
  obtain ⟨hok, hparse₀, hparse⟩ := createUser_ok
  obtain ⟨res, hrun, hres⟩ := Outcome.eq_done_of_ok hok
  obtain ⟨tok, hlogin, -⟩ := (login_session hrun hres hparse₀ hparse rfl (by decide) (by decide)
    [sampleCall 2 "CREATE DATABASE d", sampleCall 3 "USE d"]).2 rfl
  exact ⟨tok, hlogin⟩

end Dbms.Exec
