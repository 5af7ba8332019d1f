import Dbms.Core.Number
import Mathlib.Data.List.DropRight

/-! Signed tokens. HMAC-SHA256 is a parameter. -/

open Dbms.Core

namespace Dbms.Auth

abbrev Hmac := Text → Text → Text

structure JwtPayload where
  sub : Text
  exp : Nat
  deriving DecidableEq

def b64Table : Text :=
  "ABCDEFGHIJKLMNOPQRSTUVWXYZ".toList ++ "abcdefghijklmnopqrstuvwxyz".toList ++
    "0123456789+/".toList

/-- The state of a base64 loop: the output so far and the 32-bit `val` with its shift `valb`. -/
structure B64 where
  out : Text
  val : BitVec 32
  valb : Int

def byteOf (c : Char) : BitVec 32 := BitVec.ofNat 32 (c.toNat % 256)

/-- `val >> n`, of a signed `int`. -/
def shiftRight (val : BitVec 32) (n : Int) : BitVec 32 := val.sshiftRight n.toNat

def drainEncode : Nat → B64 → B64
  | 0, b => b
  | n + 1, b =>
    if 0 ≤ b.valb then
      drainEncode n
        { b with
          out := b.out ++ [b64Table.getD (shiftRight b.val b.valb &&& 0x3F).toNat 'A']
          valb := b.valb - 6 }
    else b

def encodeStep (b : B64) (c : Char) : B64 :=
  drainEncode 2 { b with val := (b.val <<< 8) + byteOf c, valb := b.valb + 8 }

def padding (s : Text) : Text := List.replicate ((4 - s.length % 4) % 4) '='

def b64urlEncode (s : Text) : Text :=
  let b := s.foldl encodeStep ⟨[], 0, -6⟩
  let out := if -6 < b.valb then
      b.out ++ [b64Table.getD (shiftRight (b.val <<< 8) (b.valb + 8) &&& 0x3F).toNat 'A']
    else b.out
  let out := (out ++ padding out).map fun c => if c = '+' then '-' else if c = '/' then '_' else c
  out.rdropWhile (· = '=')

def decodeStep (b : B64) (i : Nat) : B64 :=
  let val := (b.val <<< 6) + BitVec.ofNat 32 i
  let valb := b.valb + 6
  if 0 ≤ valb then
    ⟨b.out ++ [Char.ofNat (shiftRight val valb &&& 0xFF).toNat], val, valb - 8⟩
  else ⟨b.out, val, valb⟩

def decodeLoop : Text → B64 → B64
  | [], b => b
  | c :: s, b =>
    match b64Table.idxOf? c with
    | none => b
    | some i => decodeLoop s (decodeStep b i)

def b64urlDecode (s : Text) : Text :=
  let s := s.map fun c => if c = '-' then '+' else if c = '_' then '/' else c
  (decodeLoop (s ++ padding s) ⟨[], 0, -8⟩).out

def quote : Char := Char.ofNat 34

def subMark : Text := quote :: "sub".toList ++ quote :: ':' :: [quote]

def expMark : Text := quote :: "exp".toList ++ quote :: [':']

def jwtHeader : Text :=
  "\x7b".toList ++ quote :: "alg".toList ++ quote :: ':' :: quote :: "HS256".toList ++
    quote :: ',' :: quote :: "typ".toList ++ quote :: ':' :: quote :: "JWT".toList ++
    quote :: "\x7d".toList

def jwtSignHs256 (hmac : Hmac) (nowSec : Int) (secret sub : Text) (ttlSec : Int) : Text :=
  let payload := "\x7b".toList ++ subMark ++ sub ++ quote :: ',' :: expMark ++
    intText (nowSec + ttlSec) ++ "\x7d".toList
  let data := b64urlEncode jwtHeader ++ '.' :: b64urlEncode payload
  data ++ '.' :: b64urlEncode (hmac secret data)

inductive JwtErr where
  | err (message : Text)
  /-- `std::stoull` threw. -/
  | raised
  deriving DecidableEq

/-- The three parts between the dots, and all that was signed. -/
def splitToken (token : Text) : Option (Text × Text × Text) :=
  match token.idxOf? '.' with
  | none => none
  | some p1 =>
    let rest := token.drop (p1 + 1)
    match rest.idxOf? '.' with
    | none => none
    | some p2 => some (token.take (p1 + 1 + p2), rest.take p2, rest.drop (p2 + 1))

def payloadSub (payload : Text) : Option Text :=
  match findSub subMark payload with
  | none => none
  | some ps =>
    let rest := payload.drop (ps + 7)
    (rest.idxOf? quote).map fun n => rest.take n

def expDigits (payload : Text) : Option Text :=
  (findSub expMark payload).map fun es =>
    ((payload.drop (es + 6)).dropWhile fun c => c = ' ' || c = '\t').takeWhile Char.isDigit

def payloadExp (payload : Text) : Except JwtErr Nat :=
  match expDigits payload with
  | none => .ok 0
  | some digits =>
    match stoull digits with
    | none => .error .raised
    | some e => .ok e

/-- A number of type `uint64_t` seen as an `int64_t`. -/
def toInt64 (n : Nat) : Int := (n : Int).bmod (2 ^ 64)

def jwtVerify (hmac : Hmac) (nowSec : Int) (secret token : Text) : Except JwtErr JwtPayload :=
  match splitToken token with
  | none => .error (.err "bad jwt format".toList)
  | some (data, pl, sg) =>
    if b64urlEncode (hmac secret data) ≠ sg then .error (.err "bad jwt signature".toList)
    else
      let payload := b64urlDecode pl
      match payloadSub payload with
      | none => .error (.err "bad jwt payload".toList)
      | some sub =>
        match payloadExp payload with
        | .error e => .error e
        | .ok exp =>
          if exp ≠ 0 ∧ toInt64 exp < nowSec then .error (.err "jwt expired".toList)
          else .ok ⟨sub, exp⟩

example : b64urlDecode (b64urlEncode "any carnal pleas".toList) = "any carnal pleas".toList := by
  decide +kernel

end Dbms.Auth
