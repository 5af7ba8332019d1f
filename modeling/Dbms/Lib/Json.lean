import Dbms.Lib.Loop

/-! JSON texts by the grammar of RFC 8259, and the values they stand for. -/

namespace Dbms.Lib

/-- A number stands for `m * 10 ^ e`. The members of an object keep their order. -/
inductive Json where
  | null
  | bool (b : Bool)
  | num (m e : Int)
  | str (s : List Char)
  | arr (vs : List Json)
  | obj (ms : List (List Char × Json))

namespace Json

def isWs (c : Char) : Bool := c = ' ' || c = '\t' || c = '\n' || c = '\r'

def skip (s : List Char) : List Char := s.dropWhile isWs

def quotation : Char := Char.ofNat 34

/-! Strings. -/

def hexDigit (c : Char) : Option Nat :=
  if '0' ≤ c ∧ c ≤ '9' then some (c.toNat - 48)
  else if 'a' ≤ c ∧ c ≤ 'f' then some (c.toNat - 87)
  else if 'A' ≤ c ∧ c ≤ 'F' then some (c.toNat - 55)
  else none

def hex4 : List Char → Option (Nat × List Char)
  | a :: b :: c :: d :: s =>
    match hexDigit a, hexDigit b, hexDigit c, hexDigit d with
    | some a, some b, some c, some d => some (((a * 16 + b) * 16 + c) * 16 + d, s)
    | _, _, _, _ => none
  | _ => none

/-- A surrogate without its partner stands for U+FFFD. -/
def unitChar (u : Nat) : Char := if u.isValidChar then Char.ofNat u else Char.ofNat 0xfffd

def lowSurrogate : List Char → Option (Nat × List Char)
  | '\\' :: 'u' :: s => (hex4 s).filter fun r => 0xdc00 ≤ r.1 ∧ r.1 < 0xe000
  | _ => none

def escapes : List (Char × Char) :=
  [(quotation, quotation), ('\\', '\\'), ('/', '/'), ('b', '\x08'), ('f', '\x0c'), ('n', '\n'),
    ('r', '\r'), ('t', '\t')]

def unescape : List Char → Option (Char × List Char)
  | [] => none
  | e :: s =>
    if e = 'u' then
      match hex4 s with
      | none => none
      | some (u, s) =>
        if 0xd800 ≤ u ∧ u < 0xdc00 then
          match lowSurrogate s with
          | some (v, s) => some (Char.ofNat (0x10000 + (u - 0xd800) * 0x400 + (v - 0xdc00)), s)
          | none => some (unitChar u, s)
        else some (unitChar u, s)
    else (escapes.lookup e).map fun c => (c, s)

/-- The characters up to the closing quotation mark, and the rest behind it. The number bounds how
many there are, as in the loops below. -/
def chars : Nat → List Char → Option (List Char × List Char)
  | 0, _ | _, [] => none
  | n + 1, c :: s =>
    if c = quotation then some ([], s)
    else if c = '\\' then
      match unescape s with
      | none => none
      | some (c, s) => (chars n s).map fun r => (c :: r.1, r.2)
    else if c < ' ' then none
    else (chars n s).map fun r => (c :: r.1, r.2)

/-! Numbers. -/

def digits (s : List Char) : Option (List Char × List Char) :=
  if s.takeWhile Char.isDigit = [] then none
  else some (s.takeWhile Char.isDigit, s.dropWhile Char.isDigit)

def fraction : List Char → Option (List Char × List Char)
  | [] => some ([], [])
  | c :: s => if c = '.' then digits s else some ([], c :: s)

def exponent : List Char → Option (Int × List Char)
  | [] => some (0, [])
  | c :: s =>
    if c = 'e' ∨ c = 'E' then
      let negative := s.head? = some '-'
      let s := if s.head? = some '-' ∨ s.head? = some '+' then s.tail else s
      (digits s).map fun r =>
        (if negative then -(Nat.ofDigitChars 10 r.1 0 : Int) else Nat.ofDigitChars 10 r.1 0, r.2)
    else some (0, c :: s)

def unsigned (s : List Char) : Option (Nat × Int × List Char) :=
  match digits s with
  | none => none
  | some (int, s) =>
    if int.head? = some '0' ∧ int ≠ ['0'] then none
    else
      match fraction s with
      | none => none
      | some (frac, s) => (exponent s).map fun r =>
        (Nat.ofDigitChars 10 (int ++ frac) 0, r.1 - frac.length, r.2)

def number (s : List Char) : Option (Json × List Char) :=
  if s.head? = some '-' then (unsigned s.tail).map fun r => (.num (-r.1) r.2.1, r.2.2)
  else (unsigned s).map fun r => (.num r.1 r.2.1, r.2.2)

/-! Arrays, objects and texts. -/

section Items
variable {α : Type} (close : Char) (item : List Char → Option (α × List Char))

def items : Nat → List Char → Option (List α × List Char)
  | 0, _ => none
  | n + 1, s =>
    match item s with
    | none => none
    | some (a, s) =>
      match skip s with
      | [] => none
      | c :: s =>
        if c = close then some ([a], s)
        else if c = ',' then (items n s).map fun r => (a :: r.1, r.2)
        else none

def sequence (s : List Char) : Option (List α × List Char) :=
  match skip s with
  | [] => none
  | c :: r => if c = close then some ([], r) else items close item s.length (c :: r)

def member (s : List Char) : Option ((List Char × α) × List Char) :=
  match skip s with
  | [] => none
  | c :: s =>
    if c = quotation then
      match chars s.length s with
      | none => none
      | some (name, s) =>
        match skip s with
        | [] => none
        | c :: s => if c = ':' then (item s).map fun r => ((name, r.1), r.2) else none
    else none

end Items

/-- The first number bounds the depth. -/
def value : Nat → List Char → Option (Json × List Char)
  | 0, _ => none
  | n + 1, s =>
    match skip s with
    | [] => none
    | c :: s =>
      if c = quotation then (chars s.length s).map fun r => (.str r.1, r.2)
      else if c = '[' then (sequence ']' (fun s => value n s) s).map fun r => (.arr r.1, r.2)
      else if c = '\x7b' then
        (sequence '\x7d' (member fun s => value n s) s).map fun r => (.obj r.1, r.2)
      else if "null".toList <+: c :: s then some (.null, (c :: s).drop 4)
      else if "true".toList <+: c :: s then some (.bool true, (c :: s).drop 4)
      else if "false".toList <+: c :: s then some (.bool false, (c :: s).drop 5)
      else number (c :: s)

def decode (s : List Char) : Option Json :=
  match value (s.length + 1) s with
  | some (v, r) => if skip r = [] then some v else none
  | none => none

example : decode "[-1.50e2, \"\\u0041\\n\"] ".toList =
    some (.arr [.num (-150) 0, .str ['A', '\n']]) := by rfl

section Chars
variable {n : Nat} {c : Char} {s : List Char}

theorem chars_close (n : Nat) (s : List Char) : chars (n + 1) (quotation :: s) = some ([], s) :=
  if_pos rfl

theorem chars_plain (hquote : c ≠ quotation) (hslash : c ≠ '\\') (hc : ¬c < ' ') :
    chars (n + 1) (c :: s) = (chars n s).map fun r => (c :: r.1, r.2) := by
  rw [chars, if_neg hquote, if_neg hslash, if_neg hc]

theorem chars_control (hc : c < ' ') : chars (n + 1) (c :: s) = none := by
  have hquote : c ≠ quotation := by
    rintro rfl
    exact absurd hc (by decide)
  have hslash : c ≠ '\\' := by
    rintro rfl
    exact absurd hc (by decide)
  rw [chars, if_neg hquote, if_neg hslash, if_pos hc]

theorem chars_escaped (h : c = quotation ∨ c = '\\') :
    chars (n + 1) ('\\' :: c :: s) = (chars n s).map fun r => (c :: r.1, r.2) := by
  have hback : unescape (c :: s) = some (c, s) := by
    rcases h with rfl | rfl <;> rfl
  rw [chars, if_neg (by decide), if_pos rfl, hback]

end Chars

section Numbers
variable {ds r : List Char}

def NumberEnd (r : List Char) : Prop :=
  ∀ c, r.head? = some c → c.isDigit = false ∧ c ≠ '.' ∧ c ≠ 'e' ∧ c ≠ 'E'

theorem unsigned_integer (hne : ds ≠ []) (hds : ∀ c ∈ ds, c.isDigit = true)
    (hlead : ds.head? = some '0' → ds = ['0']) (hr : NumberEnd r) :
    unsigned (ds ++ r) = some (Nat.ofDigitChars 10 ds 0, 0, r) := by
  have hdigits : digits (ds ++ r) = some (ds, r) := by
    obtain ⟨htake, hdrop⟩ := span_append hds fun c hc => (hr c hc).1
    rw [digits, htake, hdrop, if_neg hne]
  have hfraction : fraction r = some ([], r) := by
    cases r with
    | nil => rfl
    | cons c r => rw [fraction, if_neg (hr c rfl).2.1]
  have hexponent : exponent r = some (0, r) := by
    cases r with
    | nil => rfl
    | cons c r =>
      have hc : ¬(c = 'e' ∨ c = 'E') := fun h => h.elim (hr c rfl).2.2.1 (hr c rfl).2.2.2
      rw [exponent, if_neg hc]
  have hzero : ¬(ds.head? = some '0' ∧ ds ≠ ['0']) := fun h => h.2 (hlead h.1)
  simp [unsigned, hdigits, hzero, hfraction, hexponent]

end Numbers

section Items
variable {α β : Type} {close : Char} {item : List Char → Option (α × List Char)}
  {text : β → List Char} {val : β → Option α} {bs : List β} {r : List Char}

theorem skip_cons {c : Char} (hc : isWs c = false) (s : List Char) : skip (c :: s) = c :: s := by
  simp [skip, hc]

theorem items_intercalate {n : Nat} (hclose : isWs close = false) (hcomma : close ≠ ',')
    (hitem : ∀ b ∈ bs, ∀ c r, c = ',' ∨ c = close →
      item (text b ++ c :: r) = (val b).map fun a => (a, c :: r))
    (hne : bs ≠ []) (hn : bs.length ≤ n) :
    items close item n ((",".toList).intercalate (bs.map text) ++ close :: r) =
      (bs.mapM val).map fun as => (as, r) := by
  induction bs generalizing n with
  | nil => exact absurd rfl hne
  | cons b bs ih =>
    obtain ⟨n, rfl⟩ : ∃ m, n = m + 1 := ⟨n - 1, by simp at hn; omega⟩
    have hb := hitem b (List.mem_cons_self ..)
    cases bs with
    | nil =>
      have hone := hb close r (.inr rfl)
      cases hval : val b with
      | none => simp [items, hone, hval]
      | some a => simp [items, hone, hval, skip_cons hclose]
    | cons b' bs =>
      have hrest := @ih n (fun x hx => hitem x (List.mem_cons_of_mem _ hx)) (List.cons_ne_nil _ _)
        (by simpa using hn)
      have hone := hb ',' ((",".toList).intercalate ((b' :: bs).map text) ++ close :: r) (.inl rfl)
      have htext : (",".toList).intercalate ((b :: b' :: bs).map text) ++ close :: r =
          text b ++ ',' :: ((",".toList).intercalate ((b' :: bs).map text) ++ close :: r) := by
        simp [List.intercalate]
      rw [htext, items, hone]
      cases hval : val b with
      | none => simp [hval]
      | some a =>
        simp only [Option.map_some, skip_cons (by decide : isWs ',' = false),
          if_neg hcomma.symm, if_true, hrest]
        have hcons : ∀ l : List β, (b :: l).mapM val = (l.mapM val).map (a :: ·) := by
          intro l
          rw [List.mapM_cons, hval]
          cases l.mapM val <;> rfl
        rw [hcons, Option.map_map, Option.map_map]
        rfl

theorem sequence_intercalate (hclose : isWs close = false) (hcomma : close ≠ ',')
    (hitem : ∀ b ∈ bs, ∀ c r, c = ',' ∨ c = close →
      item (text b ++ c :: r) = (val b).map fun a => (a, c :: r))
    (hstart : ∀ b ∈ bs, ∃ c w, text b = c :: w ∧ isWs c = false ∧ c ≠ close) :
    sequence close item ((",".toList).intercalate (bs.map text) ++ close :: r) =
      (bs.mapM val).map fun as => (as, r) := by
  cases bs with
  | nil => simp [sequence, List.intercalate, skip_cons hclose]
  | cons b bs =>
    have hlength : (b :: bs).length ≤
        ((",".toList).intercalate ((b :: bs).map text) ++ close :: r).length := by
      have hsum : ∀ l : List β, (∀ b ∈ l, 1 ≤ (text b).length) →
          l.length ≤ ((",".toList).intercalate (l.map text)).length := by
        intro l hl
        induction l with
        | nil => simp
        | cons x l ih =>
          have hx := hl x (List.mem_cons_self ..)
          have htail := ih fun y hy => hl y (List.mem_cons_of_mem _ hy)
          cases l with
          | nil => simpa [List.intercalate] using hx
          | cons y l =>
            simp only [List.intercalate, List.map_cons, List.intersperse_cons_cons, List.flatten_cons,
              List.length_append, List.length_cons] at htail ⊢
            simp at htail ⊢
            omega
      have hb := hsum (b :: bs) fun x hx => by
        obtain ⟨c, w, hw, -⟩ := hstart x hx
        simp [hw]
      simp only [List.length_append] at hb ⊢
      omega
    have hmain := @items_intercalate α β close item text val (b :: bs) r _ hclose hcomma hitem
      (List.cons_ne_nil _ _) hlength
    obtain ⟨c, w, hw, hc, hne⟩ := hstart b (List.mem_cons_self ..)
    obtain ⟨s, hs⟩ : ∃ s, (",".toList).intercalate ((b :: bs).map text) ++ close :: r = c :: s := by
      cases bs <;> simp [List.intercalate, hw]
    rw [hs] at hmain ⊢
    rw [sequence, skip_cons hc]
    simp only [if_neg hne]
    exact hmain

end Items

section Values
variable {n : Nat} {r : List Char} {β : Type} {text : β → List Char} {bs : List β}

theorem value_string (n : Nat) (s : List Char) :
    value (n + 1) (quotation :: s) = (chars s.length s).map fun r => (.str r.1, r.2) := by
  rw [value, skip_cons (by decide)]
  exact if_pos rfl

theorem value_null (n : Nat) (r : List Char) :
    value (n + 1) ("null".toList ++ r) = some (.null, r) := by
  rw [value]
  rfl

theorem value_array (n : Nat) (s : List Char) :
    value (n + 1) ('[' :: s) =
      (sequence ']' (fun s => value n s) s).map fun r => (.arr r.1, r.2) := by
  rw [value, skip_cons (by decide)]
  rfl

theorem value_object (n : Nat) (s : List Char) :
    value (n + 1) ('\x7b' :: s) =
      (sequence '\x7d' (member fun s => value n s) s).map fun r => (.obj r.1, r.2) := by
  rw [value, skip_cons (by decide)]
  rfl

/-- The digits of an integer with its sign. -/
theorem value_integer {ds : List Char} (negative : Bool) (hne : ds ≠ [])
    (hds : ∀ c ∈ ds, c.isDigit = true) (hlead : ds.head? = some '0' → ds = ['0'])
    (hr : NumberEnd r) :
    value (n + 1) (if negative then '-' :: (ds ++ r) else ds ++ r) =
      some (.num (if negative then -(Nat.ofDigitChars 10 ds 0 : Int) else Nat.ofDigitChars 10 ds 0)
        0, r) := by
  have hunsigned := unsigned_integer hne hds hlead hr
  cases negative with
  | true =>
    simp only [if_true]
    rw [value, skip_cons (by decide)]
    have hnumber : number ('-' :: (ds ++ r)) =
        some (.num (-(Nat.ofDigitChars 10 ds 0 : Int)) 0, r) := by
      simp [number, hunsigned]
    rw [← hnumber]
    rfl
  | false =>
    obtain ⟨c, w, rfl⟩ := List.exists_cons_of_ne_nil hne
    have hc := hds c (List.mem_cons_self ..)
    have hother : ∀ d : Char, d.isDigit = false → c ≠ d := fun d hd heq => by
      rw [heq, hd] at hc
      cases hc
    have hws : isWs c = false := by
      simp [isWs, hother ' ' rfl, hother '\t' rfl, hother '\n' rfl, hother '\r' rfl]
    have hnumber : number (c :: (w ++ r)) = some (.num (Nat.ofDigitChars 10 (c :: w) 0) 0, r) := by
      rw [List.cons_append] at hunsigned
      simp [number, hother '-' rfl, hunsigned]
    have hword : ∀ word : List Char, (word.head?.any fun d => !d.isDigit) = true →
        ¬word <+: c :: (w ++ r) := by
      intro word hd hprefix
      cases word with
      | nil => cases hd
      | cons d x => exact hother d (by simpa using hd) (List.cons_prefix_cons.mp hprefix).1.symm
    show value (n + 1) (c :: (w ++ r)) = _
    rw [value, skip_cons hws]
    simp only [if_neg (hother quotation rfl), if_neg (hother '[' rfl), if_neg (hother '\x7b' rfl)]
    rw [if_neg (hword _ rfl), if_neg (hword _ rfl), if_neg (hword _ rfl)]
    exact hnumber

end Values

end Json
end Dbms.Lib
