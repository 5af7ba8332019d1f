import Dbms.Core.Number

/-! The journal: one line of text for each record. -/

namespace Dbms.Core

/-- What gets into a file of a text that is put out: less than all of it if the disk is full, nothing
if the file cannot be opened. -/
inductive Stored where
  | all
  | first (n : Nat)
  deriving DecidableEq

def Stored.part : Stored → Text → Text
  | .all, s => s
  | .first n, s => s.take n

structure JournalRecord where
  tsUs : Nat
  db : Text
  sql : Text
  deriving DecidableEq

namespace Journal

def sanitizeLine (s : Text) : Text :=
  s.map fun c => if c = '\n' || c = '\r' || c = '|' then ' ' else c

def append (stored : Stored) (file : Text) (tsUs : Nat) (db sql : Text) : Text :=
  file ++ stored.part (natText tsUs ++ '|' :: sanitizeLine db ++ '|' :: sanitizeLine sql ++ ['\n'])

/-- A line without two bars or without a number in front is skipped. -/
def readLine (line : Text) : Option JournalRecord :=
  match line.idxOf? '|' with
  | none => none
  | some p1 =>
    let rest := line.drop (p1 + 1)
    match rest.idxOf? '|', stoull (line.take p1) with
    | some p2, some ts => some ⟨ts, rest.take p2, rest.drop (p2 + 1)⟩
    | _, _ => none

def read (file : Text) : List JournalRecord := (file.splitOn '\n').filterMap readLine

end Journal

/-! Timestamps. -/

/-- What `%d` stores: `strtol` saturates at 64 bits and the result is cut to 32. -/
def scanInt32 (s : Text) : Option (Int × Text) :=
  match scanInt s with
  | none => none
  | some (neg, digits, rest) =>
    let v : Int := if neg then max (-(2 ^ 63)) (-(decimal digits : Int))
      else min (2 ^ 63 - 1) (decimal digits)
    some (v.bmod (2 ^ 32), rest)

/-- `sscanf` with a format of `%d` conversions, each but the last followed by one of `seps`. -/
def scanFields : Text → Text → List Int
  | [], s => match scanInt32 s with
    | none => []
    | some (v, _) => [v]
  | sep :: seps, s => match scanInt32 s with
    | none => []
    | some (v, rest) => v :: if rest.head? = some sep then scanFields seps rest.tail else []

def isLeap (y : Int) : Bool := y % 4 = 0 && (y % 100 ≠ 0 || y % 400 = 0)

def monthDays (y : Int) : List Int :=
  [31, if isLeap y then 29 else 28, 31, 30, 31, 30, 31, 31, 30, 31, 30, 31]

def yearDays (y : Int) : Int :=
  365 * (y - 1970) + (y - 1) / 4 - (y - 1) / 100 + (y - 1) / 400 - 477

/-- The seconds that `gmtime` converts: their year, counted from 1900, fits into an `int`. -/
def gmtimeFits (t : Int) : Bool :=
  yearDays (1900 - 2 ^ 31) * 86400 ≤ t && t < yearDays (1900 + 2 ^ 31) * 86400

/-- `timegm`, in the proleptic Gregorian calendar; fields out of range carry over. The year found
has to fit both with the seconds cut to a minute and with all of them. -/
def timegm (year mon d h mi se : Int) : Int :=
  let y := year + 1900 + mon / 12
  let m := (mon % 12).toNat
  let days := yearDays y + ((monthDays y).take m).foldl (· + ·) 0 + (d - 1)
  let t := ((days * 24 + h) * 60 + mi) * 60
  if gmtimeFits (t + max 0 (min se 59)) && gmtimeFits (t + se) then t + se else -1

/-- The timestamp in microseconds, an unsigned 64-bit number. -/
def parseTsString (s : Text) : Except Text Nat :=
  match scanFields "..-::.".toList s with
  | y :: mo :: d :: h :: mi :: se :: rest =>
    let tt := timegm ((y - 1900).bmod (2 ^ 32)) ((mo - 1).bmod (2 ^ 32)) d h mi se
    if tt = -1 then .error "timestamp out of range".toList
    else .ok ((tt * 1000000 + ((rest.head?.getD 0).tmod 1000000)) % 2 ^ 64).toNat
  | _ => .error "bad timestamp format".toList

example : parseTsString "1970.01.02-00:00:01.5".toList = .ok 86401000005 := by rfl

example : parseTsString "2147485547.12.32-00:00:00".toList =
    .error "timestamp out of range".toList := by rfl

end Dbms.Core
