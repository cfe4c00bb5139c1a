import Hical.Bytes
import Mathlib.Data.List.DropRight

namespace Hical

def kBase64Table : Bytes := bytes "ABCDEFGHIJKLMNOPQRSTUVWXYZabcdefghijklmnopqrstuvwxyz0123456789+/"

/-- Where `-1` is no character of the alphabet. -/
def kDecodeTable : List Int8 :=
  [-1, -1, -1, -1, -1, -1, -1, -1, -1, -1, -1, -1, -1, -1, -1, -1,
    -1, -1, -1, -1, -1, -1, -1, -1, -1, -1, -1, -1, -1, -1, -1, -1,
    -1, -1, -1, -1, -1, -1, -1, -1, -1, -1, -1, 62, -1, -1, -1, 63,
    52, 53, 54, 55, 56, 57, 58, 59, 60, 61, -1, -1, -1, -1, -1, -1,
    -1, 0, 1, 2, 3, 4, 5, 6, 7, 8, 9, 10, 11, 12, 13, 14,
    15, 16, 17, 18, 19, 20, 21, 22, 23, 24, 25, -1, -1, -1, -1, -1,
    -1, 26, 27, 28, 29, 30, 31, 32, 33, 34, 35, 36, 37, 38, 39, 40,
    41, 42, 43, 44, 45, 46, 47, 48, 49, 50, 51, -1, -1, -1, -1, -1,
    -1, -1, -1, -1, -1, -1, -1, -1, -1, -1, -1, -1, -1, -1, -1, -1,
    -1, -1, -1, -1, -1, -1, -1, -1, -1, -1, -1, -1, -1, -1, -1, -1,
    -1, -1, -1, -1, -1, -1, -1, -1, -1, -1, -1, -1, -1, -1, -1, -1,
    -1, -1, -1, -1, -1, -1, -1, -1, -1, -1, -1, -1, -1, -1, -1, -1,
    -1, -1, -1, -1, -1, -1, -1, -1, -1, -1, -1, -1, -1, -1, -1, -1,
    -1, -1, -1, -1, -1, -1, -1, -1, -1, -1, -1, -1, -1, -1, -1, -1,
    -1, -1, -1, -1, -1, -1, -1, -1, -1, -1, -1, -1, -1, -1, -1, -1,
    -1, -1, -1, -1, -1, -1, -1, -1, -1, -1, -1, -1, -1, -1, -1, -1]

inductive JwtError where
  /-- A `std::runtime_error`. -/
  | runtime (what : Bytes)
  /-- What `boost::json` throws. -/
  | json
  deriving DecidableEq

section Encoding

def base64Char (i : Nat) : UInt8 := kBase64Table.getD i 0

/-- The loop of `base64UrlEncode`. -/
def encodeQuads : Bytes → Bytes
  | a :: b :: c :: data =>
    base64Char ((a.toNat >>> 2) &&& 0x3F) :: base64Char (((a.toNat <<< 4) ||| (b.toNat >>> 4)) &&& 0x3F) ::
      base64Char (((b.toNat <<< 2) ||| (c.toNat >>> 6)) &&& 0x3F) :: base64Char (c.toNat &&& 0x3F) :: encodeQuads data
  | [a, b] =>
    [base64Char ((a.toNat >>> 2) &&& 0x3F), base64Char (((a.toNat <<< 4) ||| (b.toNat >>> 4)) &&& 0x3F),
      base64Char (((b.toNat <<< 2) ||| (0 >>> 6)) &&& 0x3F), 61]
  | [a] =>
    [base64Char ((a.toNat >>> 2) &&& 0x3F), base64Char (((a.toNat <<< 4) ||| (0 >>> 4)) &&& 0x3F), 61, 61]
  | [] => []

def urlSafe (ch : UInt8) : UInt8 := if ch = 43 then 45 else if ch = 47 then 95 else ch

def stripPadding (s : Bytes) : Bytes := s.rdropWhile (· == 61)

def base64UrlEncode (data : Bytes) : Bytes := stripPadding ((encodeQuads data).map urlSafe)

end Encoding

section Decoding

def fromUrlSafe (ch : UInt8) : UInt8 := if ch = 45 then 43 else if ch = 95 then 47 else ch

/-- Filled up to a multiple of four. -/
def padded (s : Bytes) : Bytes := s ++ List.replicate ((4 - s.length % 4) % 4) 61

def decodeValue (ch : UInt8) : Int8 := kDecodeTable.getD ch.toNat (-1)

/-- The bytes of four characters; `int` and `int8_t` agree in the bits that a `char` keeps. -/
def quadBytes (v0 v1 v2 v3 : Int8) : Bytes :=
  ((v0 <<< 2) ||| (v1 >>> 4)).toUInt8 ::
    ((if 0 ≤ v2 then [((v1 <<< 4) ||| (v2 >>> 2)).toUInt8] else []) ++
      if 0 ≤ v3 then [((v2 <<< 6) ||| v3).toUInt8] else [])

/-- The loop of `base64UrlDecode`. -/
def decodeQuads : Bytes → Except JwtError Bytes
  | c0 :: c1 :: c2 :: c3 :: normalized =>
    if decodeValue c0 < 0 ∨ decodeValue c1 < 0 then .error (.runtime (bytes "JWT: invalid base64 encoding"))
    else
      (decodeQuads normalized).map fun result =>
        quadBytes (decodeValue c0) (decodeValue c1) (decodeValue c2) (decodeValue c3) ++ result
  | _ => .ok []

def base64UrlDecode (input : Bytes) : Except JwtError Bytes := decodeQuads (padded (input.map fromUrlSafe))

end Decoding

section Characters

/-- The character for six bits. -/
def urlChar (n : Nat) : UInt8 := urlSafe (base64Char n)

/-- A character of the alphabet whose six bits are a multiple of `step`. -/
def Digit (step : Nat) (c : UInt8) : Prop := ∃ n < 64, n % step = 0 ∧ c = urlChar n

/-- A character that the decoder looks up, the two of the standard alphabet included. -/
def lookedUp (c : UInt8) : Int8 := decodeValue (fromUrlSafe c)

theorem lookedUp_urlChar (h : n < 64) : lookedUp (urlChar n) = .ofNat n := by
  have hall : ∀ n < 64, lookedUp (urlChar n) = .ofNat n := by decide +kernel
  exact hall n h

theorem ofNat_nonneg (h : n < 64) : ¬ Int8.ofNat n < 0 := by
  have hall : ∀ n < 64, ¬ Int8.ofNat n < 0 := by decide +kernel
  exact hall n h

theorem urlChar_ne_pad (h : n < 64) : urlChar n ≠ 61 := by
  have hall : ∀ n < 64, urlChar n ≠ 61 := by decide +kernel
  exact hall n h

theorem lookedUp_pad : lookedUp 61 = -1 := by decide +kernel

theorem first_byte (h : i < 64) (h' : j < 64) :
    ((Int8.ofNat i <<< 2) ||| (Int8.ofNat j >>> 4)).toUInt8 = .ofNat (i * 4 + j / 16) := by
  have hall : ∀ i < 64, ∀ j < 64,
      ((Int8.ofNat i <<< 2) ||| (Int8.ofNat j >>> 4)).toUInt8 = .ofNat (i * 4 + j / 16) := by decide +kernel
  exact hall i h j h'

theorem second_byte (h : i < 64) (h' : j < 64) :
    ((Int8.ofNat i <<< 4) ||| (Int8.ofNat j >>> 2)).toUInt8 = .ofNat (i % 16 * 16 + j / 4) := by
  have hall : ∀ i < 64, ∀ j < 64,
      ((Int8.ofNat i <<< 4) ||| (Int8.ofNat j >>> 2)).toUInt8 = .ofNat (i % 16 * 16 + j / 4) := by decide +kernel
  exact hall i h j h'

theorem third_byte (h : i < 64) (h' : j < 64) :
    ((Int8.ofNat i <<< 6) ||| Int8.ofNat j).toUInt8 = .ofNat (i % 4 * 64 + j) := by
  have hall : ∀ i < 64, ∀ j < 64,
      ((Int8.ofNat i <<< 6) ||| Int8.ofNat j).toUInt8 = .ofNat (i % 4 * 64 + j) := by decide +kernel
  exact hall i h j h'

theorem sixBits (a b i j : Nat) (h : b >>> j < 2 ^ i) :
    ((a <<< i) ||| (b >>> j)) &&& 0x3F = (a * 2 ^ i + b / 2 ^ j) % 64 := by
  have hmask (n : Nat) : n &&& 0x3F = n % 64 := Nat.and_two_pow_sub_one_eq_mod n 6
  rw [hmask, ← Nat.shiftLeft_add_eq_or_of_lt h, Nat.shiftLeft_eq, Nat.shiftRight_eq_div_pow]

theorem firstSix (a : UInt8) : (a.toNat >>> 2) &&& 0x3F = a.toNat / 4 := by
  have hlt := a.toNat_lt
  have hmask (n : Nat) : n &&& 0x3F = n % 64 := Nat.and_two_pow_sub_one_eq_mod n 6
  rw [hmask, Nat.shiftRight_eq_div_pow]
  omega

theorem secondSix (a b : Nat) (hb : b < 256) : ((a <<< 4) ||| (b >>> 4)) &&& 0x3F = a % 4 * 16 + b / 16 := by
  have hshift : b >>> 4 < 2 ^ 4 := by
    rw [Nat.shiftRight_eq_div_pow]
    omega
  rw [sixBits a b 4 4 hshift]
  omega

theorem thirdSix (b c : Nat) (hc : c < 256) : ((b <<< 2) ||| (c >>> 6)) &&& 0x3F = b % 16 * 4 + c / 64 := by
  have hshift : c >>> 6 < 2 ^ 2 := by
    rw [Nat.shiftRight_eq_div_pow]
    omega
  rw [sixBits b c 2 6 hshift]
  omega

theorem lastSix (c : Nat) : c &&& 0x3F = c % 64 := Nat.and_two_pow_sub_one_eq_mod c 6

end Characters

section Images

/-- The encoded text, without a detour through padding. -/
def unpadded : Bytes → Bytes
  | a :: b :: c :: data =>
    urlChar (a.toNat / 4) :: urlChar (a.toNat % 4 * 16 + b.toNat / 16) :: urlChar (b.toNat % 16 * 4 + c.toNat / 64) ::
      urlChar (c.toNat % 64) :: unpadded data
  | [a, b] => [urlChar (a.toNat / 4), urlChar (a.toNat % 4 * 16 + b.toNat / 16), urlChar (b.toNat % 16 * 4)]
  | [a] => [urlChar (a.toNat / 4), urlChar (a.toNat % 4 * 16)]
  | [] => []

theorem stripPadding_cons {s : Bytes} (h : c ≠ 61) : stripPadding (c :: s) = c :: stripPadding s := by
  have hc : ¬ (c == 61) = true := by rwa [beq_iff_eq]
  induction s using List.reverseRecOn with
  | nil => exact List.rdropWhile_concat_neg (· == 61) [] c hc
  | append_singleton s d ih =>
    rw [stripPadding] at ih ⊢
    by_cases hd : (d == 61) = true
    · have hcons := List.rdropWhile_concat_pos (· == 61) (c :: s) d hd
      have hs := List.rdropWhile_concat_pos (· == 61) s d hd
      rw [← List.cons_append, hcons, stripPadding, hs, ih, stripPadding]
    · have hcons := List.rdropWhile_concat_neg (· == 61) (c :: s) d hd
      have hs := List.rdropWhile_concat_neg (· == 61) s d hd
      rw [← List.cons_append, hcons, stripPadding, hs, List.cons_append]

theorem base64UrlEncode_eq (data : Bytes) : base64UrlEncode data = unpadded data := by
  rw [base64UrlEncode]
  induction data using unpadded.induct with
  | case1 a b c data ih =>
    have ha := a.toNat_lt
    have hb := b.toNat_lt
    have hc := c.toNat_lt
    rw [encodeQuads, firstSix, secondSix _ _ hb, thirdSix _ _ hc, lastSix, unpadded, ← ih]
    have h0 : urlChar (a.toNat / 4) ≠ 61 := urlChar_ne_pad (by omega)
    have h1 : urlChar (a.toNat % 4 * 16 + b.toNat / 16) ≠ 61 := urlChar_ne_pad (by omega)
    have h2 : urlChar (b.toNat % 16 * 4 + c.toNat / 64) ≠ 61 := urlChar_ne_pad (by omega)
    have h3 : urlChar (c.toNat % 64) ≠ 61 := urlChar_ne_pad (by omega)
    rw [← stripPadding_cons h3, ← stripPadding_cons h2, ← stripPadding_cons h1, ← stripPadding_cons h0]
    rfl
  | case2 a b =>
    have ha := a.toNat_lt
    have hb := b.toNat_lt
    rw [encodeQuads, firstSix, secondSix _ _ hb, thirdSix _ 0 (by omega), unpadded]
    have h0 : urlChar (a.toNat / 4) ≠ 61 := urlChar_ne_pad (by omega)
    have h1 : urlChar (a.toNat % 4 * 16 + b.toNat / 16) ≠ 61 := urlChar_ne_pad (by omega)
    have h2 : urlChar (b.toNat % 16 * 4) ≠ 61 := urlChar_ne_pad (by omega)
    have hnil : ([] : Bytes) = stripPadding [61] := rfl
    rw [hnil, ← stripPadding_cons h2, ← stripPadding_cons h1, ← stripPadding_cons h0]
    rfl
  | case3 a =>
    have ha := a.toNat_lt
    rw [encodeQuads, firstSix, secondSix _ 0 (by omega), unpadded]
    have h0 : urlChar (a.toNat / 4) ≠ 61 := urlChar_ne_pad (by omega)
    have h1 : urlChar (a.toNat % 4 * 16) ≠ 61 := urlChar_ne_pad (by omega)
    have hnil : ([] : Bytes) = stripPadding [61, 61] := rfl
    rw [hnil, ← stripPadding_cons h1, ← stripPadding_cons h0]
    rfl
  | case4 => rfl

/-- What the encoder can write: characters of its alphabet, no single one at the end, and no bits left
over. -/
def Canonical : Bytes → Prop
  | c0 :: c1 :: c2 :: c3 :: s => Digit 1 c0 ∧ Digit 1 c1 ∧ Digit 1 c2 ∧ Digit 1 c3 ∧ Canonical s
  | [c0, c1, c2] => Digit 1 c0 ∧ Digit 1 c1 ∧ Digit 4 c2
  | [c0, c1] => Digit 1 c0 ∧ Digit 16 c1
  | [_] => False
  | [] => True

theorem digit_urlChar (h : n < 64) (hs : n % step = 0) : Digit step (urlChar n) := ⟨n, h, hs, rfl⟩

theorem unpadded_canonical (data : Bytes) : Canonical (unpadded data) := by
  induction data using unpadded.induct with
  | case1 a b c data ih =>
    have ha := a.toNat_lt
    have hb := b.toNat_lt
    have hc := c.toNat_lt
    exact ⟨digit_urlChar (by omega) (Nat.mod_one _), digit_urlChar (by omega) (Nat.mod_one _),
      digit_urlChar (by omega) (Nat.mod_one _), digit_urlChar (by omega) (Nat.mod_one _), ih⟩
  | case2 a b =>
    have ha := a.toNat_lt
    have hb := b.toNat_lt
    exact ⟨digit_urlChar (by omega) (Nat.mod_one _), digit_urlChar (by omega) (Nat.mod_one _),
      digit_urlChar (by omega) (by omega)⟩
  | case3 a =>
    have ha := a.toNat_lt
    exact ⟨digit_urlChar (by omega) (Nat.mod_one _), digit_urlChar (by omega) (by omega)⟩
  | case4 => trivial

theorem canonical_unpadded (s : Bytes) (h : Canonical s) : ∃ data, unpadded data = s := by
  induction s using Canonical.induct with
  | case1 c0 c1 c2 c3 s ih =>
    obtain ⟨⟨i, hi, -, rfl⟩, ⟨j, hj, -, rfl⟩, ⟨k, hk, -, rfl⟩, ⟨l, hl, -, rfl⟩, hs⟩ := h
    obtain ⟨data, rfl⟩ := ih hs
    have ha : (UInt8.ofNat (i * 4 + j / 16)).toNat = i * 4 + j / 16 := UInt8.toNat_ofNat_of_lt' (by change _ < 256; omega)
    have hb : (UInt8.ofNat (j % 16 * 16 + k / 4)).toNat = j % 16 * 16 + k / 4 :=
      UInt8.toNat_ofNat_of_lt' (by change _ < 256; omega)
    have hc : (UInt8.ofNat (k % 4 * 64 + l)).toNat = k % 4 * 64 + l := UInt8.toNat_ofNat_of_lt' (by change _ < 256; omega)
    refine ⟨.ofNat (i * 4 + j / 16) :: .ofNat (j % 16 * 16 + k / 4) :: .ofNat (k % 4 * 64 + l) :: data, ?_⟩
    have h0 : (i * 4 + j / 16) / 4 = i := by omega
    have h1 : (i * 4 + j / 16) % 4 * 16 + (j % 16 * 16 + k / 4) / 16 = j := by omega
    have h2 : (j % 16 * 16 + k / 4) % 16 * 4 + (k % 4 * 64 + l) / 64 = k := by omega
    have h3 : (k % 4 * 64 + l) % 64 = l := by omega
    rw [unpadded, ha, hb, hc, h0, h1, h2, h3]
  | case2 c0 c1 c2 =>
    obtain ⟨⟨i, hi, -, rfl⟩, ⟨j, hj, -, rfl⟩, ⟨k, hk, hlast, rfl⟩⟩ := h
    have ha : (UInt8.ofNat (i * 4 + j / 16)).toNat = i * 4 + j / 16 := UInt8.toNat_ofNat_of_lt' (by change _ < 256; omega)
    have hb : (UInt8.ofNat (j % 16 * 16 + k / 4)).toNat = j % 16 * 16 + k / 4 :=
      UInt8.toNat_ofNat_of_lt' (by change _ < 256; omega)
    refine ⟨[.ofNat (i * 4 + j / 16), .ofNat (j % 16 * 16 + k / 4)], ?_⟩
    have h0 : (i * 4 + j / 16) / 4 = i := by omega
    have h1 : (i * 4 + j / 16) % 4 * 16 + (j % 16 * 16 + k / 4) / 16 = j := by omega
    have h2 : (j % 16 * 16 + k / 4) % 16 * 4 = k := by omega
    rw [unpadded, ha, hb, h0, h1, h2]
  | case3 c0 c1 =>
    obtain ⟨⟨i, hi, -, rfl⟩, ⟨j, hj, hlast, rfl⟩⟩ := h
    have ha : (UInt8.ofNat (i * 4 + j / 16)).toNat = i * 4 + j / 16 := UInt8.toNat_ofNat_of_lt' (by change _ < 256; omega)
    refine ⟨[.ofNat (i * 4 + j / 16)], ?_⟩
    have h0 : (i * 4 + j / 16) / 4 = i := by omega
    have h1 : (i * 4 + j / 16) % 4 * 16 = j := by omega
    rw [unpadded, ha, h0, h1]
  | case4 => exact h.elim
  | case5 => exact ⟨[], rfl⟩

theorem canonical_iff (s : Bytes) : Canonical s ↔ ∃ data, base64UrlEncode data = s := by
  constructor
  · intro h
    obtain ⟨data, hdata⟩ := canonical_unpadded s h
    exact ⟨data, (base64UrlEncode_eq data).trans hdata⟩
  · rintro ⟨data, rfl⟩
    exact base64UrlEncode_eq data ▸ unpadded_canonical data

end Images

section Reading

def invalidBase64 : JwtError := .runtime (bytes "JWT: invalid base64 encoding")

/-- Whether the decoder refuses four characters that begin with those two. -/
def Refused (c0 c1 : UInt8) : Prop := lookedUp c0 < 0 ∨ lookedUp c1 < 0

instance (c0 c1 : UInt8) : Decidable (Refused c0 c1) := inferInstanceAs (Decidable (_ ∨ _))

theorem decode_quad (c0 c1 c2 c3 : UInt8) (s : Bytes) : base64UrlDecode (c0 :: c1 :: c2 :: c3 :: s) =
    if Refused c0 c1 then .error invalidBase64
    else (base64UrlDecode s).map fun result =>
      quadBytes (lookedUp c0) (lookedUp c1) (lookedUp c2) (lookedUp c3) ++ result := by
  have hlen : (4 - (s.map fromUrlSafe).length.succ.succ.succ.succ % 4) % 4 = (4 - (s.map fromUrlSafe).length % 4) % 4 := by
    omega
  rw [base64UrlDecode, padded, List.map_cons, List.map_cons, List.map_cons, List.map_cons]
  change decodeQuads (_ :: _ :: _ :: _ :: (s.map fromUrlSafe ++ List.replicate ((4 - (s.map fromUrlSafe).length.succ.succ.succ.succ % 4) % 4) 61)) = _
  rw [hlen, decodeQuads]
  rfl

theorem decode_three (c0 c1 c2 : UInt8) : base64UrlDecode [c0, c1, c2] =
    if Refused c0 c1 then .error invalidBase64 else .ok (quadBytes (lookedUp c0) (lookedUp c1) (lookedUp c2) (-1)) := by
  change decodeQuads [fromUrlSafe c0, fromUrlSafe c1, fromUrlSafe c2, 61] = _
  have hnil : decodeQuads [] = .ok [] := rfl
  rw [decodeQuads, hnil, Except.map, List.append_nil]
  exact congrArg _ (congrArg _ (congrArg _ lookedUp_pad))

theorem decode_two (c0 c1 : UInt8) : base64UrlDecode [c0, c1] =
    if Refused c0 c1 then .error invalidBase64 else .ok (quadBytes (lookedUp c0) (lookedUp c1) (-1) (-1)) := by
  change decodeQuads [fromUrlSafe c0, fromUrlSafe c1, 61, 61] = _
  have hnil : decodeQuads [] = .ok [] := rfl
  rw [decodeQuads, hnil, Except.map, List.append_nil]
  have hpad : decodeValue 61 = -1 := lookedUp_pad
  rw [hpad]
  rfl

theorem decode_one (c0 : UInt8) : base64UrlDecode [c0] = .error invalidBase64 := by
  change decodeQuads [fromUrlSafe c0, 61, 61, 61] = _
  have hpad : decodeValue 61 < 0 := by decide +kernel
  rw [decodeQuads, if_pos (.inr hpad)]
  rfl

theorem decode_nil : base64UrlDecode [] = .ok [] := rfl

/-- What the decoder looks at: the first two of every four characters, and that no single one is
left. -/
def Leads : Bytes → Prop
  | c0 :: c1 :: _ :: _ :: s => ¬ Refused c0 c1 ∧ Leads s
  | [c0, c1, _] => ¬ Refused c0 c1
  | [c0, c1] => ¬ Refused c0 c1
  | [_] => False
  | [] => True

theorem decode_ok_iff (s : Bytes) : (∃ data, base64UrlDecode s = .ok data) ↔ Leads s := by
  induction s using Leads.induct with
  | case1 c0 c1 c2 c3 s ih =>
    rw [decode_quad, Leads, ← ih]
    split
    · next h => exact ⟨fun ⟨data, hd⟩ => (nomatch hd), fun hl => absurd h hl.1⟩
    · next h =>
      constructor
      · rintro ⟨data, hd⟩
        cases hs : base64UrlDecode s with
        | error e =>
          rw [hs] at hd
          cases hd
        | ok rest => exact ⟨h, rest, rfl⟩
      · rintro ⟨-, rest, hs⟩
        rw [hs]
        exact ⟨_, rfl⟩
  | case2 c0 c1 c2 =>
    rw [decode_three, Leads]
    split
    · next h => exact ⟨fun ⟨data, hd⟩ => (nomatch hd), fun hl => absurd h hl⟩
    · next h => exact ⟨fun _ => h, fun _ => ⟨_, rfl⟩⟩
  | case3 c0 c1 =>
    rw [decode_two, Leads]
    split
    · next h => exact ⟨fun ⟨data, hd⟩ => (nomatch hd), fun hl => absurd h hl⟩
    · next h => exact ⟨fun _ => h, fun _ => ⟨_, rfl⟩⟩
  | case4 c0 =>
    rw [decode_one, Leads]
    exact ⟨fun ⟨data, hd⟩ => (nomatch hd), False.elim⟩
  | case5 => exact ⟨fun _ => trivial, fun _ => ⟨[], rfl⟩⟩

theorem not_refused_urlChar (hi : i < 64) (hj : j < 64) : ¬ Refused (urlChar i) (urlChar j) := by
  rw [Refused, lookedUp_urlChar hi, lookedUp_urlChar hj, not_or]
  exact ⟨ofNat_nonneg hi, ofNat_nonneg hj⟩

theorem ofNat_toNat_eq {a : UInt8} (h : n = a.toNat) : UInt8.ofNat n = a := by
  rw [h, UInt8.ofNat_toNat]

/-- Three bytes out of four characters, and fewer where the last ones are padding. -/
theorem quadBytes_ofNat (hi : i < 64) (hj : j < 64) (hk : k < 64) (hl : l < 64) :
    quadBytes (.ofNat i) (.ofNat j) (.ofNat k) (.ofNat l) =
      [.ofNat (i * 4 + j / 16), .ofNat (j % 16 * 16 + k / 4), .ofNat (k % 4 * 64 + l)] := by
  have hk0 : 0 ≤ Int8.ofNat k := Int8.not_lt.1 (ofNat_nonneg hk)
  have hl0 : 0 ≤ Int8.ofNat l := Int8.not_lt.1 (ofNat_nonneg hl)
  rw [quadBytes, if_pos hk0, if_pos hl0, first_byte hi hj, second_byte hj hk, third_byte hk hl]
  rfl

theorem quadBytes_two (hi : i < 64) (hj : j < 64) (hk : k < 64) :
    quadBytes (.ofNat i) (.ofNat j) (.ofNat k) (-1) = [.ofNat (i * 4 + j / 16), .ofNat (j % 16 * 16 + k / 4)] := by
  have hk0 : 0 ≤ Int8.ofNat k := Int8.not_lt.1 (ofNat_nonneg hk)
  have hl0 : ¬ (0 : Int8) ≤ -1 := by decide +kernel
  rw [quadBytes, if_pos hk0, if_neg hl0, first_byte hi hj, second_byte hj hk]
  rfl

theorem quadBytes_one (hi : i < 64) (hj : j < 64) :
    quadBytes (.ofNat i) (.ofNat j) (-1) (-1) = [.ofNat (i * 4 + j / 16)] := by
  have hl0 : ¬ (0 : Int8) ≤ -1 := by decide +kernel
  rw [quadBytes, if_neg hl0, first_byte hi hj]
  rfl

theorem base64UrlDecode_encode (data : Bytes) : base64UrlDecode (base64UrlEncode data) = .ok data := by
  rw [base64UrlEncode_eq]
  induction data using unpadded.induct with
  | case1 a b c data ih =>
    have ha := a.toNat_lt
    have hb := b.toNat_lt
    have hc := c.toNat_lt
    have hi : a.toNat / 4 < 64 := by omega
    have hj : a.toNat % 4 * 16 + b.toNat / 16 < 64 := by omega
    have hk : b.toNat % 16 * 4 + c.toNat / 64 < 64 := by omega
    have hl : c.toNat % 64 < 64 := by omega
    rw [unpadded, decode_quad, if_neg (not_refused_urlChar hi hj), ih, lookedUp_urlChar hi, lookedUp_urlChar hj,
      lookedUp_urlChar hk, lookedUp_urlChar hl, quadBytes_ofNat hi hj hk hl,
      ofNat_toNat_eq (a := a) (by omega), ofNat_toNat_eq (a := b) (by omega), ofNat_toNat_eq (a := c) (by omega)]
    rfl
  | case2 a b =>
    have ha := a.toNat_lt
    have hb := b.toNat_lt
    have hi : a.toNat / 4 < 64 := by omega
    have hj : a.toNat % 4 * 16 + b.toNat / 16 < 64 := by omega
    have hk : b.toNat % 16 * 4 < 64 := by omega
    rw [unpadded, decode_three, if_neg (not_refused_urlChar hi hj), lookedUp_urlChar hi, lookedUp_urlChar hj,
      lookedUp_urlChar hk, quadBytes_two hi hj hk, ofNat_toNat_eq (a := a) (by omega),
      ofNat_toNat_eq (a := b) (by omega)]
  | case3 a =>
    have ha := a.toNat_lt
    have hi : a.toNat / 4 < 64 := by omega
    have hj : a.toNat % 4 * 16 < 64 := by omega
    rw [unpadded, decode_two, if_neg (not_refused_urlChar hi hj), lookedUp_urlChar hi, lookedUp_urlChar hj,
      quadBytes_one hi hj, ofNat_toNat_eq (a := a) (by omega)]
  | case4 => rfl

theorem base64UrlDecode_padded (data : Bytes) (h : data.length % 3 = 2) :
    base64UrlDecode (base64UrlEncode data ++ [61]) = .ok data := by
  rw [base64UrlEncode_eq]
  induction data using unpadded.induct with
  | case1 a b c data ih =>
    have hrest : data.length % 3 = 2 := by
      simp only [List.length_cons] at h
      omega
    have hfull := base64UrlDecode_encode (a :: b :: c :: data)
    rw [base64UrlEncode_eq, unpadded, decode_quad] at hfull
    rw [unpadded, List.cons_append, List.cons_append, List.cons_append, List.cons_append, decode_quad, ih hrest]
    have hplain := base64UrlDecode_encode data
    rw [base64UrlEncode_eq] at hplain
    rwa [hplain] at hfull
  | case2 a b =>
    have hfull := base64UrlDecode_encode [a, b]
    rw [base64UrlEncode_eq, unpadded, decode_three] at hfull
    rw [unpadded, List.cons_append, List.cons_append, List.cons_append, List.nil_append, decode_quad, decode_nil,
      lookedUp_pad, Except.map, List.append_nil]
    exact hfull
  | case3 a => simp at h
  | case4 => simp at h

end Reading

end Hical
