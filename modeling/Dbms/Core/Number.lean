import Dbms.Core.Value

/-! Numbers in text, as the C and C++ libraries read and print them. -/

namespace Dbms.Core

def decimal (digits : Text) : Nat := digits.foldl (fun v c => 10 * v + (c.toNat - '0'.toNat)) 0

def natText (n : Nat) : Text := Nat.toDigits 10 n

def intText (v : Int) : Text := if v < 0 then '-' :: natText v.natAbs else natText v.natAbs

def isCSpace (c : Char) : Bool := c = ' ' || (9 ≤ c.toNat && c.toNat ≤ 13)

/-- The sign, the digits and the rest of what `strtol` and `%d` read; `none` without a digit. -/
def scanInt (s : Text) : Option (Bool × Text × Text) :=
  let s := s.dropWhile isCSpace
  let neg := s.head? = some '-'
  let s := if neg || s.head? = some '+' then s.tail else s
  if s.takeWhile Char.isDigit = [] then none
  else some (neg, s.takeWhile Char.isDigit, s.dropWhile Char.isDigit)

/-- `std::stoull`; `none` where it throws. A minus sign negates modulo `2 ^ 64`. -/
def stoull (s : Text) : Option Nat :=
  match scanInt s with
  | none => none
  | some (neg, digits, _) =>
    if decimal digits < 2 ^ 64 then
      some (if neg then (2 ^ 64 - decimal digits) % 2 ^ 64 else decimal digits)
    else none

/-- `std::stoll` on a string of digits; `none` where it throws `std::out_of_range`. -/
def stoll (digits : Text) : Option Int :=
  if decimal digits < 2 ^ 63 then some (decimal digits) else none

def findSub (pat : Text) : Text → Option Nat
  | [] => if pat = [] then some 0 else none
  | c :: s => if pat <+: c :: s then some 0 else (findSub pat s).map (· + 1)

end Dbms.Core
