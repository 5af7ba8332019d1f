import Dbms.Auth.Base64
import Dbms.Core.Numeral
import Dbms.Sql.Lexeme

/-! A signed token against its verification: the dots and the field markers stay unambiguous. -/

open Dbms.Core

namespace Dbms.Auth

section Search
variable {pat s : Text} {c q : Char}

theorem findSub_here (h : pat <+: c :: s) : findSub pat (c :: s) = some 0 := if_pos h

theorem findSub_next (h : ¬ pat <+: c :: s) : findSub pat (c :: s) = (findSub pat s).map (· + 1) :=
  if_neg h

theorem findSub_skip {pre : Text} (hpat : pat.head? = some q) (h : q ∉ pre) (s : Text) :
    findSub pat (pre ++ s) = (findSub pat s).map (· + pre.length) := by
  obtain ⟨p, rfl⟩ := List.head?_eq_some_iff.mp hpat
  induction pre with
  | nil => simp
  | cons c pre ih =>
    rw [List.mem_cons, not_or] at h
    have hnot : ¬ q :: p <+: c :: (pre ++ s) := fun hp => h.1 (List.cons_prefix_cons.mp hp).1
    rw [List.cons_append, findSub_next hnot, ih h.2, Option.map_map]
    rfl

theorem prefix_split {x y r r' : Text} (hx : q ∉ x) (hy : q ∉ y) (h : x ++ q :: r <+: y ++ q :: r') :
    x = y ∧ r <+: r' := by
  induction x generalizing y with
  | nil =>
    cases y with
    | nil => exact ⟨rfl, (List.cons_prefix_cons.mp h).2⟩
    | cons c y => exact absurd (List.cons_prefix_cons.mp h).1 (List.ne_of_not_mem_cons hy)
  | cons c x ih =>
    cases y with
    | nil => exact absurd (List.cons_prefix_cons.mp h).1.symm (List.ne_of_not_mem_cons hx)
    | cons d y =>
      obtain ⟨hcd, htail⟩ := List.cons_prefix_cons.mp h
      have hrest := ih (List.not_mem_of_not_mem_cons hx) (List.not_mem_of_not_mem_cons hy) htail
      exact ⟨List.cons_eq_cons.mpr ⟨hcd, hrest.1⟩, hrest.2⟩

end Search

def IsSubject (sub : Text) : Prop := ∀ c ∈ sub, c.toNat < 128 ∧ c ≠ quote

theorem isSubject_of_ident {s : Text} (h : (Sql.Lexer.next s).1.kind = .ident) :
    IsSubject (Sql.Lexer.next s).1.text := by
  intro c hc
  rcases Sql.Lexer.next_ident_chars h c hc with hident | hstamp
  · refine ⟨Sql.Lexer.isIdentChar_lt hident, ?_⟩
    rintro rfl
    cases hident
  · refine ⟨Sql.Lexer.isStampChar_lt hstamp, ?_⟩
    rintro rfl
    cases hstamp

section Payload
variable {sub : Text} {exp : Nat}

def payloadText (sub : Text) (exp : Nat) : Text :=
  '{' :: (subMark ++ (sub ++ quote :: ',' :: (expMark ++ (natText exp ++ ['}']))))

theorem payloadSub_payloadText (h : quote ∉ sub) : payloadSub (payloadText sub exp) = some sub := by
  have hfind : findSub subMark (payloadText sub exp) = some 1 := by
    rw [payloadText, ← List.singleton_append, findSub_skip rfl (by decide)]
    exact congrArg _ (findSub_here (List.prefix_append _ _))
  have hdrop : (payloadText sub exp).drop (1 + 7) =
      sub ++ quote :: ',' :: (expMark ++ (natText exp ++ ['}'])) := rfl
  unfold payloadSub
  rw [hfind]
  dsimp only
  rw [hdrop, idxOf?_append h, Option.map_some, List.take_left]

theorem findSub_expMark (h : quote ∉ sub) :
    findSub expMark (payloadText sub exp) = some (sub.length + 10) := by
  have hshape : payloadText sub exp = ['{'] ++ quote :: (['s'] ++ (['u', 'b'] ++ quote :: ([':'] ++
      quote :: (sub ++ quote :: ([','] ++ (expMark ++ (natText exp ++ ['}']))))))) := rfl
  have hsub : ¬ expMark <+: quote :: (sub ++ quote :: ([','] ++ (expMark ++ (natText exp ++ ['}']))))
      := by
    intro hp
    have hp : ['e', 'x', 'p'] ++ quote :: [':'] <+: sub ++ quote :: ([','] ++ (expMark ++
      (natText exp ++ ['}']))) := (List.cons_prefix_cons.mp hp).2
    have hcolon := (prefix_split (by decide) h hp).2
    exact absurd (List.cons_prefix_cons.mp hcolon).1 (by decide)
  have hhere : findSub expMark (expMark ++ (natText exp ++ ['}'])) = some 0 :=
    findSub_here (List.prefix_append _ _)
  have hnext : ∀ {c : Char} {s : Text}, c ≠ 'e' →
      findSub expMark (quote :: ([c] ++ s)) = (findSub expMark ([c] ++ s)).map (· + 1) := by
    intro c s hc
    apply findSub_next
    intro hp
    exact hc (List.cons_prefix_cons.mp (List.cons_prefix_cons.mp hp).2).1.symm
  rw [hshape, findSub_skip rfl (by decide), hnext (by decide), findSub_skip rfl (by decide),
    findSub_skip rfl (by decide), hnext (by decide), findSub_skip rfl (by decide),
    findSub_next hsub, findSub_skip rfl h, hnext (by decide), findSub_skip rfl (by decide), hhere]
  simp only [Option.map_some, List.length_cons, List.length_nil, Option.some_inj]
  omega

theorem expDigits_payloadText (h : quote ∉ sub) :
    expDigits (payloadText sub exp) = some (natText exp) := by
  have hdrop : (payloadText sub exp).drop (sub.length + 10 + 6) = natText exp ++ ['}'] := by
    have hshape : payloadText sub exp =
        ('{' :: (subMark ++ (sub ++ quote :: ',' :: expMark))) ++ (natText exp ++ ['}']) := by
      simp [payloadText]
    rw [hshape]
    apply List.drop_left'
    simp [subMark, expMark]
  have hfirst : (natText exp ++ ['}']).dropWhile (fun c => c = ' ' || c = '\t') =
      natText exp ++ ['}'] := by
    obtain ⟨c, digits, hdigits⟩ := List.exists_cons_of_ne_nil (natText_ne_nil exp)
    have hc := natText_isDigit exp c (hdigits ▸ List.mem_cons_self ..)
    rw [hdigits]
    apply List.dropWhile_cons_of_neg
    intro hblank
    simp only [Bool.or_eq_true, decide_eq_true_eq] at hblank
    rcases hblank with rfl | rfl
    · cases hc
    · cases hc
  have htake : (natText exp ++ ['}']).takeWhile Char.isDigit = natText exp := by
    rw [List.takeWhile_append_of_pos (natText_isDigit exp), List.takeWhile_cons_of_neg (by decide),
      List.append_nil]
  unfold expDigits
  rw [findSub_expMark h, Option.map_some, hdrop, hfirst, htake]

theorem payloadExp_payloadText (h : quote ∉ sub) (hexp : exp < 2 ^ 64) :
    payloadExp (payloadText sub exp) = .ok exp := by
  unfold payloadExp
  rw [expDigits_payloadText h]
  dsimp only
  rw [stoull_natText hexp]

theorem payloadText_isBytes (h : IsSubject sub) : IsBytes (payloadText sub exp) := by
  have hfixed : IsBytes ('{' :: subMark) ∧ IsBytes (quote :: ',' :: expMark) ∧ IsBytes ['}'] := by
    decide +kernel
  have hshape : payloadText sub exp =
      ('{' :: subMark) ++ (sub ++ ((quote :: ',' :: expMark) ++ (natText exp ++ ['}']))) := rfl
  intro c hc
  rw [hshape] at hc
  simp only [List.mem_append] at hc
  rcases hc with hc | hc | hc | hc | hc
  · exact hfixed.1 c hc
  · exact Nat.lt_of_lt_of_le (h c hc).1 (by decide)
  · exact hfixed.2.1 c hc
  · exact Nat.lt_of_le_of_lt (Sql.Lexer.digit_le (natText_isDigit exp c hc)) (by decide)
  · exact hfixed.2.2 c hc

end Payload

section Token
variable {head pl : Text}

theorem splitToken_parts (hhead : '.' ∉ head) (hpl : '.' ∉ pl) (sg : Text) :
    splitToken (head ++ '.' :: (pl ++ '.' :: sg)) = some (head ++ '.' :: pl, pl, sg) := by
  have hrest : (head ++ '.' :: (pl ++ '.' :: sg)).drop (head.length + 1) = pl ++ '.' :: sg := by
    simp
  have htake : (head ++ '.' :: (pl ++ '.' :: sg)).take (head.length + 1 + pl.length) =
      head ++ '.' :: pl := by
    have hshape : head ++ '.' :: (pl ++ '.' :: sg) = (head ++ '.' :: pl) ++ '.' :: sg := by simp
    rw [hshape]
    apply List.take_left'
    simp
    omega
  unfold splitToken
  rw [idxOf?_append hhead]
  dsimp only
  rw [hrest, idxOf?_append hpl]
  dsimp only
  rw [htake, List.take_left, List.drop_append]
  simp

theorem dot_notMem_b64urlEncode (s : Text) : '.' ∉ b64urlEncode s := by
  intro h
  exact absurd (b64urlEncode_alphabet s _ h) (by decide)

end Token

theorem toInt64_of_lt {n : Nat} (h : n < 2 ^ 63) : toInt64 n = n := by
  unfold toInt64
  rw [Int.bmod_eq_of_le] <;> omega

theorem jwtVerify_own (hmac : Hmac) (secret : Text) {sub : Text} {exp : Nat} (t : Int)
    (hsub : IsSubject sub) (hexp : exp < 2 ^ 63) :
    let data := b64urlEncode jwtHeader ++ '.' :: b64urlEncode (payloadText sub exp)
    jwtVerify hmac t secret (data ++ '.' :: b64urlEncode (hmac secret data)) =
      if exp ≠ 0 ∧ (exp : Int) < t then .error (.err "jwt expired".toList) else .ok ⟨sub, exp⟩ := by
  intro data
  have hquote : quote ∉ sub := fun h => (hsub quote h).2 rfl
  have hsplit : splitToken (data ++ '.' :: b64urlEncode (hmac secret data)) =
      some (data, b64urlEncode (payloadText sub exp), b64urlEncode (hmac secret data)) := by
    have hparts := splitToken_parts (dot_notMem_b64urlEncode jwtHeader)
      (dot_notMem_b64urlEncode (payloadText sub exp)) (b64urlEncode (hmac secret data))
    rwa [← List.cons_append, ← List.append_assoc] at hparts
  unfold jwtVerify
  rw [hsplit]
  dsimp only
  rw [if_neg (fun h => h rfl), b64urlDecode_b64urlEncode (payloadText_isBytes hsub),
    payloadSub_payloadText hquote, payloadExp_payloadText hquote (by omega)]
  dsimp only
  rw [toInt64_of_lt hexp]

theorem jwtSignHs256_eq (hmac : Hmac) (secret sub : Text) {t₀ ttl : Int} {exp : Nat}
    (hexp : t₀ + ttl = exp) : jwtSignHs256 hmac t₀ secret sub ttl =
      let data := b64urlEncode jwtHeader ++ '.' :: b64urlEncode (payloadText sub exp)
      data ++ '.' :: b64urlEncode (hmac secret data) := by
  have hpayload : ['{'] ++ subMark ++ sub ++ quote :: ',' :: expMark ++ intText (t₀ + ttl) ++ ['}'] =
      payloadText sub exp := by
    rw [hexp, intText_natCast]
    simp [payloadText]
  show (let data := b64urlEncode jwtHeader ++ '.' :: b64urlEncode (['{'] ++ subMark ++ sub ++
    quote :: ',' :: expMark ++ intText (t₀ + ttl) ++ ['}'])
    data ++ '.' :: b64urlEncode (hmac secret data)) = _
  rw [hpayload]

/-- A token is accepted with its own fields until it expires, and refused from then on. -/
theorem jwtVerify_jwtSignHs256 (hmac : Hmac) (secret text : Text) (ttl t₀ t : Int)
    (hident : (Sql.Lexer.next text).1.kind = .ident) (hpos : 0 < t₀ + ttl)
    (hlt : t₀ + ttl < 2 ^ 63) :
    let sub := (Sql.Lexer.next text).1.text
    let verified := jwtVerify hmac t secret (jwtSignHs256 hmac t₀ secret sub ttl)
    (t ≤ t₀ + ttl → verified = .ok ⟨sub, (t₀ + ttl).toNat⟩) ∧
      (t₀ + ttl < t → ∃ message, verified = .error (.err message)) := by
  intro sub verified
  obtain ⟨exp, hexp⟩ := Int.eq_ofNat_of_zero_le hpos.le
  have hverified : verified =
      if exp ≠ 0 ∧ (exp : Int) < t then .error (.err "jwt expired".toList) else .ok ⟨sub, exp⟩ := by
    show jwtVerify hmac t secret (jwtSignHs256 hmac t₀ secret sub ttl) = _
    rw [jwtSignHs256_eq hmac secret sub hexp]
    exact jwtVerify_own hmac secret t (isSubject_of_ident hident) (by omega)
  rw [hverified, hexp]
  constructor
  · intro hlate
    rw [if_neg (by omega), Int.toNat_natCast]
  · intro hlate
    exact ⟨_, if_pos ⟨by omega, hlate⟩⟩

theorem jwtVerify_jwtSignHs256_exp :
    let token := jwtSignHs256 (fun key data => key ++ data) 10 ['k'] ['e', 'x', 'p'] 5
    jwtVerify (fun key data => key ++ data) 15 ['k'] token = .ok ⟨['e', 'x', 'p'], 15⟩ ∧
      ∃ message, jwtVerify (fun key data => key ++ data) 16 ['k'] token = .error (.err message) := by
  have hident : (Sql.Lexer.next [' ', 'e', 'x', 'p', ';']).1.kind = .ident := by decide +kernel
  exact ⟨(jwtVerify_jwtSignHs256 (fun key data => key ++ data) ['k'] [' ', 'e', 'x', 'p', ';'] 5 10 15
      hident (by decide) (by decide)).1 (by decide),
    (jwtVerify_jwtSignHs256 (fun key data => key ++ data) ['k'] [' ', 'e', 'x', 'p', ';'] 5 10 16
      hident (by decide) (by decide)).2 (by decide)⟩

end Dbms.Auth
