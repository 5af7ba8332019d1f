import Dbms.Exec.Executor

/-! Runs of requests, and a world to run examples in. -/

open Dbms.Core Dbms.Lib Dbms.Sql Dbms.Auth

namespace Dbms.Exec

def Outcome.state : Outcome → Executor
  | .done _ ex | .raised ex | .dangling ex | .running ex => ex

def Outcome.failed : Outcome → Bool
  | .done res _ => !res.ok
  | _ => false

def Outcome.ok : Outcome → Bool
  | .done res _ => res.ok
  | _ => false

theorem Outcome.eq_done_of_failed {o : Outcome} (h : o.failed = true) :
    ∃ res, o = .done res o.state ∧ res.ok = false := by
  cases o with
  | done res ex => exact ⟨res, rfl, by simpa [failed] using h⟩
  | _ => cases h

/-- One call of `execute`, with what it finds outside. -/
structure Call where
  ticks : List Nat → Tick
  depth : Nat
  request : Request

def Call.outcome (W : World) (c : Call) (ex : Executor) : Outcome :=
  execute W c.ticks c.depth c.request ex

/-- The states that requests lead to from a new executor. -/
inductive Reachable (W : World) : Executor → Prop where
  | new (salt : Bytes) (dataDir : Text) (pool : StringPool) (files : Text → Text) :
      Reachable W (.new W salt dataDir pool files)
  | step {ex : Executor} (c : Call) : Reachable W ex → Reachable W (c.outcome W ex).state

/-- One call after the other. The next call starts from the state that one leaves, also when that
raised an exception, used a deleted database or does not end: another thread may go on behind it. -/
def runAll (W : World) : List Call → Executor → Executor
  | [], ex => ex
  | c :: cs, ex => runAll W cs (c.outcome W ex).state

theorem runAll_append (W : World) (cs cs' : List Call) (ex : Executor) :
    runAll W (cs ++ cs') ex = runAll W cs' (runAll W cs ex) := by
  induction cs generalizing ex with
  | nil => rfl
  | cons c cs ih => exact ih _

theorem Reachable.runAll {W : World} {ex : Executor} (h : Reachable W ex) (cs : List Call) :
    Reachable W (runAll W cs ex) := by
  induction cs generalizing ex with
  | nil => exact h
  | cons c cs ih => exact ih (h.step c)

/-- A property of single calls holds of every call of a run, of those too that come behind one which
raised an exception, used a deleted database or does not end. -/
def EachCall (W : World) (P : Call → Executor → Prop) (cs : List Call) (ex : Executor) : Prop :=
  ∀ pre c post, cs = pre ++ c :: post → P c (runAll W pre ex)

theorem EachCall.head {W : World} {P : Call → Executor → Prop} {c : Call} {cs : List Call}
    {ex : Executor} (h : EachCall W P (c :: cs) ex) : P c ex := h [] c cs rfl

theorem EachCall.tail {W : World} {P : Call → Executor → Prop} {c : Call} {cs : List Call}
    {ex : Executor} (h : EachCall W P (c :: cs) ex) : EachCall W P cs (c.outcome W ex).state :=
  fun pre d post hcs => h (c :: pre) d post (by rw [hcs]; rfl)

theorem eachCall_nil {W : World} {P : Call → Executor → Prop} {ex : Executor} :
    EachCall W P [] ex := by
  intro pre c post hcs
  cases pre <;> cases hcs

theorem eachCall_cons {W : World} {P : Call → Executor → Prop} {c : Call} {cs : List Call}
    {ex : Executor} :
    EachCall W P (c :: cs) ex ↔ P c ex ∧ EachCall W P cs (c.outcome W ex).state := by
  refine ⟨fun h => ⟨h.head, h.tail⟩, ?_⟩
  rintro ⟨hc, hcs⟩ pre d post heq
  cases pre with
  | nil =>
    cases heq
    exact hc
  | cons e pre =>
    cases heq
    exact hcs pre d post rfl

theorem eachCall_singleton {W : World} {P : Call → Executor → Prop} {c : Call} {ex : Executor} :
    EachCall W P [c] ex ↔ P c ex :=
  eachCall_cons.trans (and_iff_left eachCall_nil)

/-! The development secret, some signatures under it, the hash of the first user's password under a
salt of zeros, and no numbers printed. -/

def sampleSalt : Bytes := List.replicate 16 0

def macHeader : Text := "eyJhbGciOiJIUzI1NiIs".toList ++ "InR5cCI6IkpXVCJ9.".toList

def userMac : Text × Text :=
  (macHeader ++ "eyJzdWIiOiJ1IiwiZXhw".toList ++ "IjoxNzAwMDAzNjAwfQ".toList,
    [163, 138, 112, 21, 253, 125, 122, 166, 188, 171, 130, 201, 70, 175, 87, 205, 15, 32, 105, 86,
      245, 49, 232, 191, 214, 235, 178, 210, 49, 253, 102, 186].map Char.ofNat)

def namelessMac : Text × Text :=
  (macHeader ++ "eyJzdWIiOiIiLCJleHAi".toList ++ "OjE3MDAwMDM2MDB9".toList,
    [178, 182, 137, 208, 107, 12, 140, 6, 171, 61, 216, 241, 73, 42, 21, 207, 103, 124, 203, 132,
      23, 245, 127, 13, 108, 196, 208, 155, 82, 131, 58, 188].map Char.ofNat)

def overlongMac : Text × Text :=
  (macHeader ++ "eyJzdWIiOiJ1IiwiZXhwIjo5".toList ++ "OTk5OTk5OTk5OTk5OTk5OTk5OX0".toList,
    [38, 50, 237, 40, 158, 113, 185, 204, 176, 106, 207, 150, 11, 107, 205, 11, 223, 228, 159, 202,
      150, 165, 86, 65, 126, 208, 131, 232, 49, 172, 87, 85].map Char.ofNat)

def tokenOf (mac : Text × Text) : Text := mac.1 ++ '.' :: b64urlEncode mac.2

def sampleWorld : World where
  jwtSecret := "course-dbms-dev-secret-change-me".toList
  hmac _ data :=
    (([userMac, namelessMac, overlongMac].find? fun mac => mac.1 = data).map Prod.snd).getD []
  pbkdf2 _ _ :=
    [72, 171, 140, 190, 10, 53, 170, 249, 26, 10, 176, 34, 180, 192, 195, 79,
      228, 171, 124, 227, 234, 128, 148, 187, 112, 211, 235, 127, 215, 64, 91, 203]
  regex pattern s := some (pattern = s)
  print := { sumText := fun _ => [], avgText := fun _ => [] }

def sampleTick (nowUs : Nat) : List Nat → Tick := fun _ =>
  { nowUs := nowUs
    verifySec := 1700000000
    signSec := 1700000000
    salt := sampleSalt
    rowOrder := .sorted Nat
    nameOrder := .sorted Text
    sortRecs := .stable _
    journal := some .all }

def sampleStart : Executor :=
  .new sampleWorld sampleSalt "data".toList .new fun _ => []

def sampleCall (nowUs : Nat) (sql : String) (jwt : Text := []) : Call :=
  { ticks := sampleTick nowUs, depth := 1, request := { sql := sql.toList, jwt := jwt } }

def sampleRun (sqls : List String) : Executor :=
  runAll sampleWorld (sqls.mapIdx fun i sql => sampleCall (1700000000000000 + i) sql) sampleStart

theorem sampleRun_reachable (sqls : List String) : Reachable sampleWorld (sampleRun sqls) :=
  (Reachable.new _ _ _ _).runAll _

def rowsOf (ex : Executor) (db table : String) : Option (List (RowId × Row)) :=
  ((ex.catalog.getDatabase db.toList).bind fun d => d.getTable table.toList).map fun t =>
    (t.allRowIds (.sorted Nat)).filterMap fun rid => (t.getRow rid).map fun row => (rid, row)

end Dbms.Exec
