import Dbms.Core.Value

/-! Users, groups and grants. -/

open Dbms.Core

namespace Dbms.Auth

abbrev Bytes := List UInt8

/-- `PBKDF2` with the iteration count and the output length that the code fixes. -/
abbrev Pbkdf2 := Text → Bytes → Bytes

inductive Perm where
  | read
  | writeData
  | createTable
  | dropTable
  | dropDatabase
  deriving DecidableEq

def Perm.mask : Perm → Nat
  | read => 1
  | writeData => 2
  | createTable => 4
  | dropTable => 8
  | dropDatabase => 16

def Perm.all : Nat := 31

structure UserAccount where
  name : Text
  salt : Bytes
  hash : Bytes
  groups : Finset Text
  deriving DecidableEq

structure Rbac where
  users : Finmap fun _ : Text => UserAccount
  groups : Finset Text
  grants : Finmap fun _ : Text => Finmap fun _ : Text => Nat
  dbDefaults : Finmap fun _ : Text => Nat

def toLower (s : Text) : Text := s.map Char.toLower

def permOfName (sl : Text) : Option Perm :=
  if sl = "read".toList then some .read
  else if sl = "write".toList then some .writeData
  else if sl = "create_table".toList then some .createTable
  else if sl = "drop_table".toList then some .dropTable
  else if sl = "drop_database".toList then some .dropDatabase
  else none

def permFromString (s : Text) : Except Text Nat :=
  match permOfName (toLower s) with
  | some p => .ok p.mask
  | none => .error ("unknown permission: ".toList ++ s)

namespace Rbac

def empty : Rbac := ⟨∅, ∅, ∅, ∅⟩

def createUser (pbkdf2 : Pbkdf2) (salt : Bytes) (r : Rbac) (name password : Text) :
    Except Text Rbac :=
  if name ∈ r.users then .error "user exists".toList
  else .ok { r with users := r.users.insert name ⟨name, salt, pbkdf2 password salt, ∅⟩ }

def createGroup (r : Rbac) (name : Text) : Except Text Rbac :=
  if name ∈ r.groups then .error "group exists".toList
  else .ok { r with groups := insert name r.groups }

def addUserToGroup (r : Rbac) (user group : Text) : Rbac :=
  match r.users.lookup user with
  | none => r
  | some u => { r with users := r.users.insert user { u with groups := insert group u.groups } }

def verifyPassword (pbkdf2 : Pbkdf2) (r : Rbac) (name password : Text) : Bool :=
  match r.users.lookup name with
  | none => false
  | some u => pbkdf2 password u.salt = u.hash

def grantDefaultOnNewDatabase (r : Rbac) (db : Text) : Rbac :=
  { r with dbDefaults := r.dbDefaults.insert db Perm.all }

def grant (r : Rbac) (db principal : Text) (mask : Nat) : Rbac :=
  let ps := (r.grants.lookup db).getD ∅
  let ps := ps.insert principal ((ps.lookup principal).getD 0 ||| mask)
  { r with grants := r.grants.insert db ps }

def granted (m : Finmap fun _ : Text => Nat) (key : Text) (p : Perm) : Bool :=
  match m.lookup key with
  | none => false
  | some d => d &&& p.mask ≠ 0

def userKey (user : Text) : Text := "user:".toList ++ user

def groupKey (group : Text) : Text := "group:".toList ++ group

def check (r : Rbac) (user db : Text) (p : Perm) : Bool :=
  granted r.dbDefaults db p ||
    match r.grants.lookup db with
    | none => false
    | some ps =>
      granted ps (userKey user) p ||
        match r.users.lookup user with
        | none => false
        | some u => decide (∃ g ∈ u.groups, granted ps (groupKey g) p)

end Rbac
end Dbms.Auth
