import Dbms.Auth.Jwt
import Dbms.Lib.Base64

/-! The base64 loops against groups of six bits. The 32-bit buffer overflows on every longer
input, but what is read from it lies within its low bits. -/

open Dbms.Core Dbms.Lib.Base64

namespace Dbms.Auth

def IsBytes (s : Text) : Prop := ∀ c ∈ s, c.toNat < 256

instance (s : Text) : Decidable (IsBytes s) :=
  decidable_of_iff (s.all (·.toNat < 256) = true) (by simp [IsBytes])

section Buffer
variable {val : BitVec 32} {n : Int} {k : Nat}

/-- The sign bit does not reach the low bits. -/
theorem shiftRight_mod (h : n.toNat + k ≤ 32) :
    (shiftRight val n).toNat % 2 ^ k = val.toNat / 2 ^ n.toNat % 2 ^ k := by
  apply Nat.eq_of_testBit_eq
  intro i
  rw [Nat.testBit_mod_two_pow, Nat.testBit_mod_two_pow, Nat.testBit_div_two_pow,
    BitVec.testBit_toNat, BitVec.testBit_toNat, shiftRight, BitVec.getLsbD_sshiftRight]
  by_cases hi : i < k
  · have hin : n.toNat + i < 32 := by omega
    have h32 : ¬ 32 ≤ i := by omega
    rw [if_pos hin]
    simp [hi, h32, Nat.add_comm]
  · simp [hi]

theorem sextet_toNat (h : n.toNat + 6 ≤ 32) :
    (shiftRight val n &&& 0x3F).toNat = val.toNat / 2 ^ n.toNat % 64 := by
  have hmask : (0x3F : BitVec 32).toNat = 2 ^ 6 - 1 := rfl
  rw [BitVec.toNat_and, hmask, Nat.and_two_pow_sub_one_eq_mod]
  exact shiftRight_mod h

theorem octet_toNat (h : n.toNat + 8 ≤ 32) :
    (shiftRight val n &&& 0xFF).toNat = val.toNat / 2 ^ n.toNat % 256 := by
  have hmask : (0xFF : BitVec 32).toNat = 2 ^ 8 - 1 := rfl
  rw [BitVec.toNat_and, hmask, Nat.and_two_pow_sub_one_eq_mod]
  exact shiftRight_mod h

def pushByte (val : BitVec 32) (c : Char) : BitVec 32 := (val <<< 8) + byteOf c

theorem pushByte_toNat (c : Char) :
    (pushByte val c).toNat = (val.toNat * 256 + c.toNat % 256) % 2 ^ 32 := by
  simp only [pushByte, BitVec.toNat_add, BitVec.toNat_shiftLeft, byteOf, BitVec.toNat_ofNat,
    Nat.shiftLeft_eq]
  omega

theorem pushByte_mod_four (c : Char) : (pushByte val c).toNat % 4 = c.toNat % 256 % 4 := by
  rw [pushByte_toNat]
  omega

theorem pushByte_mod_sixteen (c : Char) : (pushByte val c).toNat % 16 = c.toNat % 256 % 16 := by
  rw [pushByte_toNat]
  omega

def pushDigit (val : BitVec 32) (i : Nat) : BitVec 32 := (val <<< 6) + BitVec.ofNat 32 i

theorem pushDigit_toNat (i : Nat) : (pushDigit val i).toNat = (val.toNat * 64 + i) % 2 ^ 32 := by
  simp only [pushDigit, BitVec.toNat_add, BitVec.toNat_shiftLeft, BitVec.toNat_ofNat,
    Nat.shiftLeft_eq]
  omega

theorem pushDigit_low {i : Nat} (hi : i < 64) : (pushDigit val i).toNat % 64 = i := by
  rw [pushDigit_toNat]
  omega

theorem pushDigit_mod_sixteen (i : Nat) : (pushDigit val i).toNat % 16 = i % 16 := by
  rw [pushDigit_toNat]
  omega

theorem pushDigit_mod_four (i : Nat) : (pushDigit val i).toNat % 4 = i % 4 := by
  rw [pushDigit_toNat]
  omega

end Buffer

def digit (i : Nat) : Char := b64Table.getD i 'A'

def bytes (s : Text) : List Nat := s.map fun c => c.toNat % 256

theorem bytes_lt (s : Text) : ∀ a ∈ bytes s, a < 256 := by
  intro a ha
  obtain ⟨c, -, rfl⟩ := List.mem_map.mp ha
  exact Nat.mod_lt _ (by decide)

theorem ofNat_bytes {s : Text} (h : IsBytes s) : (bytes s).map Char.ofNat = s := by
  rw [bytes, List.map_map]
  conv => rhs; rw [← List.map_id s]
  apply List.map_congr_left
  intro c hc
  show Char.ofNat (c.toNat % 256) = c
  rw [Nat.mod_eq_of_lt (h c hc), Char.ofNat_toNat]

section Encode
variable {out : Text} {val : BitVec 32} {valb : Int} {n : Nat}

theorem drainEncode_done (h : valb < 0) :
    drainEncode n ⟨out, val, valb⟩ = ⟨out, val, valb⟩ := by
  cases n with
  | zero => rfl
  | succ n => simp [drainEncode, Int.not_le.mpr h]

theorem drainEncode_turn (h : 0 ≤ valb) (h' : valb.toNat + 6 ≤ 32) :
    drainEncode (n + 1) ⟨out, val, valb⟩ =
      drainEncode n ⟨out ++ [digit (val.toNat / 2 ^ valb.toNat % 64)], val, valb - 6⟩ := by
  simp only [drainEncode, if_pos h, sextet_toNat h', digit]

theorem encodeStep_first (c : Char) : encodeStep ⟨out, val, -6⟩ c =
    ⟨out ++ [digit (c.toNat % 256 / 4)], pushByte val c, -4⟩ := by
  have hdigit : (pushByte val c).toNat / 2 ^ (2 : Int).toNat % 64 = c.toNat % 256 / 4 := by
    show _ / 4 % 64 = _
    rw [pushByte_toNat]
    omega
  show drainEncode 2 ⟨out, pushByte val c, 2⟩ = _
  rw [drainEncode_turn (by decide) (by decide), drainEncode_done (by decide), hdigit]
  rfl

theorem encodeStep_second (c : Char) : encodeStep ⟨out, val, -4⟩ c =
    ⟨out ++ [digit (val.toNat % 4 * 16 + c.toNat % 256 / 16)], pushByte val c, -2⟩ := by
  have hdigit : (pushByte val c).toNat / 2 ^ (4 : Int).toNat % 64 =
      val.toNat % 4 * 16 + c.toNat % 256 / 16 := by
    show _ / 16 % 64 = _
    rw [pushByte_toNat]
    omega
  show drainEncode 2 ⟨out, pushByte val c, 4⟩ = _
  rw [drainEncode_turn (by decide) (by decide), drainEncode_done (by decide), hdigit]
  rfl

theorem encodeStep_third (c : Char) : encodeStep ⟨out, val, -2⟩ c =
    ⟨out ++ [digit (val.toNat % 16 * 4 + c.toNat % 256 / 64)] ++ [digit (c.toNat % 256 % 64)],
      pushByte val c, -6⟩ := by
  have hhigh : (pushByte val c).toNat / 2 ^ (6 : Int).toNat % 64 =
      val.toNat % 16 * 4 + c.toNat % 256 / 64 := by
    show _ / 64 % 64 = _
    rw [pushByte_toNat]
    omega
  have hlow : (pushByte val c).toNat / 2 ^ (6 - 6 : Int).toNat % 64 = c.toNat % 256 % 64 := by
    show _ / 1 % 64 = _
    rw [pushByte_toNat]
    omega
  show drainEncode 2 ⟨out, pushByte val c, 6⟩ = _
  rw [drainEncode_turn (by decide) (by decide), drainEncode_turn (by decide) (by decide), hhigh,
    hlow]
  rfl

def encodeEnd (b : B64) : Text :=
  if -6 < b.valb then
    b.out ++ [b64Table.getD (shiftRight (b.val <<< 8) (b.valb + 8) &&& 0x3F).toNat 'A']
  else b.out

theorem toNat_zeroByte : (val <<< 8).toNat = val.toNat * 256 % 2 ^ 32 := by
  rw [BitVec.toNat_shiftLeft, Nat.shiftLeft_eq]

theorem encodeEnd_two : encodeEnd ⟨out, val, -4⟩ = out ++ [digit (val.toNat % 4 * 16)] := by
  have hdigit : (shiftRight (val <<< 8) 4 &&& 0x3F).toNat = val.toNat % 4 * 16 := by
    rw [sextet_toNat (by decide), toNat_zeroByte]
    show _ / 16 % 64 = _
    omega
  show out ++ [b64Table.getD (shiftRight (val <<< 8) 4 &&& 0x3F).toNat 'A'] = _
  rw [hdigit, digit]

theorem encodeEnd_four : encodeEnd ⟨out, val, -2⟩ = out ++ [digit (val.toNat % 16 * 4)] := by
  have hdigit : (shiftRight (val <<< 8) 6 &&& 0x3F).toNat = val.toNat % 16 * 4 := by
    rw [sextet_toNat (by decide), toNat_zeroByte]
    show _ / 64 % 64 = _
    omega
  show out ++ [b64Table.getD (shiftRight (val <<< 8) 6 &&& 0x3F).toNat 'A'] = _
  rw [hdigit, digit]

theorem foldl_encodeStep : ∀ (s out : Text) (val : BitVec 32),
    encodeEnd (s.foldl encodeStep ⟨out, val, -6⟩) = out ++ (sextets (bytes s)).map digit
  | [], out, val => by simp [encodeEnd, bytes, sextets]
  | [a], out, val => by simp [encodeStep_first, encodeEnd_two, pushByte_mod_four, bytes, sextets]
  | [a, b], out, val => by
    simp [encodeStep_first, encodeStep_second, encodeEnd_four, pushByte_mod_four,
      pushByte_mod_sixteen, bytes, sextets]
  | a :: b :: c :: s, out, val => by
    rw [List.foldl_cons, List.foldl_cons, List.foldl_cons, encodeStep_first, encodeStep_second,
      encodeStep_third, foldl_encodeStep s, pushByte_mod_four, pushByte_mod_sixteen]
    simp [bytes, sextets]

end Encode

section Decode
variable {out : Text} {val : BitVec 32} {valb : Int} {i : Nat}

theorem decodeStep_byte (h : 0 ≤ valb + 6) (h' : (valb + 6).toNat + 8 ≤ 32) :
    decodeStep ⟨out, val, valb⟩ i =
      ⟨out ++ [Char.ofNat ((pushDigit val i).toNat / 2 ^ (valb + 6).toNat % 256)],
        pushDigit val i, valb + 6 - 8⟩ := by
  rw [← octet_toNat h']
  exact if_pos h

theorem decodeStep_second (hi : i < 64) : decodeStep ⟨out, val, -2⟩ i =
    ⟨out ++ [Char.ofNat (val.toNat % 64 * 4 + i / 16)], pushDigit val i, -4⟩ := by
  have hbyte : (pushDigit val i).toNat / 2 ^ (-2 + 6 : Int).toNat % 256 =
      val.toNat % 64 * 4 + i / 16 := by
    show _ / 16 % 256 = _
    rw [pushDigit_toNat]
    omega
  rw [decodeStep_byte (by decide) (by decide), hbyte]
  rfl

theorem decodeStep_third (hi : i < 64) : decodeStep ⟨out, val, -4⟩ i =
    ⟨out ++ [Char.ofNat (val.toNat % 16 * 16 + i / 4)], pushDigit val i, -6⟩ := by
  have hbyte : (pushDigit val i).toNat / 2 ^ (-4 + 6 : Int).toNat % 256 =
      val.toNat % 16 * 16 + i / 4 := by
    show _ / 4 % 256 = _
    rw [pushDigit_toNat]
    omega
  rw [decodeStep_byte (by decide) (by decide), hbyte]
  rfl

theorem decodeStep_fourth (hi : i < 64) : decodeStep ⟨out, val, -6⟩ i =
    ⟨out ++ [Char.ofNat (val.toNat % 4 * 64 + i)], pushDigit val i, -8⟩ := by
  have hbyte : (pushDigit val i).toNat / 2 ^ (-6 + 6 : Int).toNat % 256 =
      val.toNat % 4 * 64 + i := by
    show _ / 1 % 256 = _
    rw [pushDigit_toNat]
    omega
  rw [decodeStep_byte (by decide) (by decide), hbyte]
  rfl

theorem decodeStep_first : decodeStep ⟨out, val, -8⟩ i = ⟨out, pushDigit val i, -2⟩ := rfl

theorem foldl_decodeStep : ∀ (digits : List Nat) (out : Text) (val : BitVec 32),
    (∀ i ∈ digits, i < 64) →
    (digits.foldl decodeStep ⟨out, val, -8⟩).out = out ++ (octets digits).map Char.ofNat
  | [], out, val, _ => by simp [octets]
  | [p], out, val, _ => by simp [decodeStep_first, octets]
  | [p, q], out, val, h => by
    simp only [List.forall_mem_cons] at h
    simp [decodeStep_first, decodeStep_second h.2.1, pushDigit_low h.1, octets]
  | [p, q, r], out, val, h => by
    simp only [List.forall_mem_cons] at h
    simp [decodeStep_first, decodeStep_second h.2.1, decodeStep_third h.2.2.1, pushDigit_low h.1,
      pushDigit_mod_sixteen, octets]
  | p :: q :: r :: s :: digits, out, val, h => by
    simp only [List.forall_mem_cons] at h
    obtain ⟨hp, hq, hr, hs, hrest⟩ := h
    rw [List.foldl_cons, List.foldl_cons, List.foldl_cons, List.foldl_cons, decodeStep_first,
      decodeStep_second hq, decodeStep_third hr, decodeStep_fourth hs,
      foldl_decodeStep digits _ _ hrest, pushDigit_low hp, pushDigit_mod_sixteen,
      pushDigit_mod_four]
    simp [octets]

end Decode

section Alphabet

def urlChar (c : Char) : Char := if c = '+' then '-' else if c = '/' then '_' else c

def plainChar (c : Char) : Char := if c = '-' then '+' else if c = '_' then '/' else c

def IsUrlChar (c : Char) : Prop := c.isAlpha ∨ c.isDigit ∨ c = '-' ∨ c = '_'

instance (c : Char) : Decidable (IsUrlChar c) :=
  inferInstanceAs (Decidable (c.isAlpha = true ∨ c.isDigit = true ∨ c = '-' ∨ c = '_'))

theorem digit_alphabet : ∀ i < 64, IsUrlChar (urlChar (digit i)) ∧ urlChar (digit i) ≠ '=' ∧
    plainChar (urlChar (digit i)) = digit i ∧ b64Table.idxOf? (digit i) = some i := by
  decide +kernel

theorem rdropWhile_padding {s : Text} (h : '=' ∉ s) (n : Nat) :
    (s ++ List.replicate n '=').rdropWhile (· = '=') = s := by
  induction n with
  | zero =>
    rw [List.replicate_zero, List.append_nil, List.rdropWhile_eq_self_iff]
    intro hs hlast
    rw [decide_eq_true_iff] at hlast
    exact h (hlast ▸ List.getLast_mem hs)
  | succ n ih =>
    rw [List.replicate_succ', ← List.append_assoc, List.rdropWhile_concat_pos _ _ _ (by simp), ih]

theorem b64urlEncode_eq (s : Text) :
    b64urlEncode s = (sextets (bytes s)).map fun i => urlChar (digit i) := by
  have hplain : '=' ∉ (sextets (bytes s)).map fun i => urlChar (digit i) := by
    intro h
    obtain ⟨i, hi, heq⟩ := List.mem_map.mp h
    exact (digit_alphabet i (sextets_lt (bytes_lt s) i hi)).2.1 heq
  have hout := foldl_encodeStep s [] 0
  rw [List.nil_append] at hout
  show ((encodeEnd (s.foldl encodeStep ⟨[], 0, -6⟩) ++
    padding (encodeEnd (s.foldl encodeStep ⟨[], 0, -6⟩))).map urlChar).rdropWhile (· = '=') = _
  rw [hout, List.map_append, List.map_map]
  have hpad : ∀ s : Text, (padding s).map urlChar = List.replicate ((4 - s.length % 4) % 4) '=' :=
    fun s => List.map_replicate
  rw [hpad]
  exact rdropWhile_padding hplain _

theorem decodeLoop_digits {digits : List Nat} (h : ∀ i ∈ digits, i < 64) (n : Nat) (b : B64) :
    decodeLoop (digits.map digit ++ List.replicate n '=') b = digits.foldl decodeStep b := by
  induction digits generalizing b with
  | nil =>
    cases n with
    | zero => rfl
    | succ n =>
      have hpad : b64Table.idxOf? '=' = none := by decide +kernel
      simp [List.replicate_succ, decodeLoop, hpad]
  | cons i digits ih =>
    obtain ⟨hi, hrest⟩ := List.forall_mem_cons.mp h
    have hidx := (digit_alphabet i hi).2.2.2
    rw [List.map_cons, List.cons_append, decodeLoop]
    simp only [hidx]
    exact ih hrest _

theorem b64urlDecode_digits {digits : List Nat} (h : ∀ i ∈ digits, i < 64) :
    b64urlDecode (digits.map fun i => urlChar (digit i)) = (octets digits).map Char.ofNat := by
  have hback : (digits.map fun i => urlChar (digit i)).map plainChar = digits.map digit := by
    rw [List.map_map]
    apply List.map_congr_left
    intro i hi
    exact (digit_alphabet i (h i hi)).2.2.1
  show (decodeLoop ((digits.map fun i => urlChar (digit i)).map plainChar ++
    padding ((digits.map fun i => urlChar (digit i)).map plainChar)) ⟨[], 0, -8⟩).out = _
  rw [hback, padding, decodeLoop_digits h, foldl_decodeStep digits [] 0 h, List.nil_append]

end Alphabet

theorem b64urlDecode_b64urlEncode {s : Text} (hs : IsBytes s) :
    b64urlDecode (b64urlEncode s) = s := by
  rw [b64urlEncode_eq, b64urlDecode_digits (sextets_lt (bytes_lt s)), octets_sextets (bytes_lt s),
    ofNat_bytes hs]

theorem b64urlEncode_alphabet (s : Text) : ∀ c ∈ b64urlEncode s, IsUrlChar c := by
  intro c hc
  rw [b64urlEncode_eq] at hc
  obtain ⟨i, hi, rfl⟩ := List.mem_map.mp hc
  exact (digit_alphabet i (sextets_lt (bytes_lt s) i hi)).1

/-- The code round trips from either side, within the alphabet of URLs. -/
theorem b64url_round_trip (s : Text) (hs : IsBytes s) :
    b64urlDecode (b64urlEncode s) = s ∧
    (∀ c ∈ b64urlEncode s, c.isAlpha ∨ c.isDigit ∨ c = '-' ∨ c = '_') ∧
    ∀ e, (∃ s', IsBytes s' ∧ e = b64urlEncode s') → b64urlEncode (b64urlDecode e) = e := by
  refine ⟨b64urlDecode_b64urlEncode hs, b64urlEncode_alphabet s, ?_⟩
  intro e he
  obtain ⟨s', hs', rfl⟩ := he
  rw [b64urlDecode_b64urlEncode hs']

theorem b64url_round_trip_overflow :
    b64urlDecode (b64urlEncode [Char.ofNat 255, 'a', '\n', 'b', Char.ofNat 0, 'c', 'd']) =
      [Char.ofNat 255, 'a', '\n', 'b', Char.ofNat 0, 'c', 'd'] := by
  have hs : IsBytes [Char.ofNat 255, 'a', '\n', 'b', Char.ofNat 0, 'c', 'd'] := by
    decide +kernel
  exact (b64url_round_trip _ hs).1

end Dbms.Auth
