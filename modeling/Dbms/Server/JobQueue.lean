import Dbms.Exec.Executor

/-! The jobs of a storage node, by their ids. -/

open Dbms.Core Dbms.Exec Dbms.Auth

namespace Dbms.Server

/-- `enum class Status`, in its order. -/
inductive Status where
  | pending
  | running
  | done
  | error
  deriving DecidableEq

def Status.number : Status → Nat
  | .pending => 0
  | .running => 1
  | .done => 2
  | .error => 3

structure JobRecord where
  status : Status
  result : ExecResult
  deriving DecidableEq

def noResult : ExecResult := ⟨false, [], [], false, []⟩

abbrev JobQueue := Finmap fun _ : Text => JobRecord

def hexDigit (n : Nat) : Char := "0123456789abcdef".toList.getD n '0'

def hexByte (b : UInt8) : Text := [hexDigit (b.toNat / 16), hexDigit (b.toNat % 16)]

def makeGuidV4 (b : Bytes) : Text :=
  let byte (i : Nat) : Text :=
    hexByte (if i = 6 then (b.getD i 0 &&& 0x0f) ||| 0x40
      else if i = 8 then (b.getD i 0 &&& 0x3f) ||| 0x80
      else b.getD i 0)
  byte 0 ++ byte 1 ++ byte 2 ++ byte 3 ++ '-' :: byte 4 ++ byte 5 ++ '-' :: byte 6 ++ byte 7 ++
    '-' :: byte 8 ++ byte 9 ++ '-' :: byte 10 ++ byte 11 ++ byte 12 ++ byte 13 ++ byte 14 ++ byte 15

namespace JobQueue
variable {jobs : JobQueue} {id : Text}

/-- The first part of `submit`; the second starts a thread. -/
def submit (jobs : JobQueue) (id : Text) : JobQueue := jobs.insert id ⟨.pending, noResult⟩

def finish (jobs : JobQueue) (id : Text) (r : ExecResult) : JobQueue :=
  match jobs.lookup id with
  | none => jobs
  | some _ => jobs.insert id ⟨if r.ok then .done else .error, r⟩

def poll (jobs : JobQueue) (id : Text) : Option JobRecord := jobs.lookup id

theorem finish_lookup_of_ne {id' : Text} (h : id' ≠ id) (r : ExecResult) :
    (jobs.finish id r).lookup id' = jobs.lookup id' := by
  unfold finish
  split
  · rfl
  · exact Finmap.lookup_insert_of_ne _ h

theorem finish_lookup {j : JobRecord} (h : jobs.lookup id = some j) (r : ExecResult) :
    (jobs.finish id r).lookup id = some ⟨if r.ok then .done else .error, r⟩ := by
  unfold finish
  rw [h]
  exact Finmap.lookup_insert _

end JobQueue
end Dbms.Server
