import KnishIO.Exception
import KnishIO.Library.Json.Dump

open ByteString

namespace KnishIO

/-- `std::isxdigit` in the C locale. -/
def isxdigit (c : UInt8) : Bool := (48 ≤ c && c ≤ 57) || (97 ≤ c && c ≤ 102) || (65 ≤ c && c ≤ 70)

def hexDigitValue (c : UInt8) : Nat :=
  if c ≤ 57 then c.toNat - 48 else if 97 ≤ c then c.toNat - 87 else c.toNat - 55

section Hex

def toHexString (data : ByteString) : ByteString :=
  data.flatMap fun byte => [Json.hexDigit (byte.toNat / 16), Json.hexDigit (byte.toNat % 16)]

def invalidHexCharacter (c : UInt8) : Exception := .invalidArgument (ascii "Invalid hex character: " ++ [c])

/-- The loop over pairs of digits; the length is even here. -/
def fromHexPairs : ByteString → Throws ByteString
  | a :: b :: rest =>
    if !isxdigit a then .error (invalidHexCharacter a)
    else if !isxdigit b then .error (invalidHexCharacter b)
    else (fromHexPairs rest).map (UInt8.ofNat (hexDigitValue a * 16 + hexDigitValue b) :: ·)
  | _ => .ok []

def fromHexString (str : ByteString) : Throws ByteString :=
  if str.length % 2 ≠ 0 then .error (.invalidArgument (ascii "Hex string must have even length"))
  else fromHexPairs str

/-- The lower-case digits that `toHexString` writes. -/
def isHexLower (c : UInt8) : Bool := (48 ≤ c && c ≤ 57) || (97 ≤ c && c ≤ 102)

theorem hexDigit_props {n : Nat} (hn : n < 16) :
    isxdigit (Json.hexDigit n) = true ∧ isHexLower (Json.hexDigit n) = true ∧ hexDigitValue (Json.hexDigit n) = n := by
  interval_cases n <;> decide

theorem hexDigit_hexDigitValue {c : UInt8} (hc : isHexLower c = true) :
    Json.hexDigit (hexDigitValue c) = c ∧ hexDigitValue c < 16 ∧ isxdigit c = true :=
  forall_byte_of_fin (P := fun c => isHexLower c = true →
    Json.hexDigit (hexDigitValue c) = c ∧ hexDigitValue c < 16 ∧ isxdigit c = true) (by decide +kernel) c hc

@[simp] theorem toHexString_nil : toHexString [] = [] := rfl

@[simp] theorem toHexString_cons (byte : UInt8) (data : ByteString) :
    toHexString (byte :: data) =
      Json.hexDigit (byte.toNat / 16) :: Json.hexDigit (byte.toNat % 16) :: toHexString data := rfl

@[simp] theorem length_toHexString (data : ByteString) : (toHexString data).length = 2 * data.length := by
  induction data with
  | nil => rfl
  | cons byte data ih =>
    simp only [toHexString_cons, List.length_cons, ih]
    omega

theorem isHexLower_toHexString {data : ByteString} {c : UInt8} (hc : c ∈ toHexString data) : isHexLower c = true := by
  obtain ⟨byte, _, hmem⟩ := List.mem_flatMap.mp hc
  have hbyte := byte.toNat_lt
  rcases List.mem_cons.mp hmem with rfl | hmem
  · exact (hexDigit_props (by omega)).2.1
  · obtain rfl := List.mem_singleton.mp hmem
    exact (hexDigit_props (by omega)).2.1

theorem fromHexPairs_toHexString (data : ByteString) : fromHexPairs (toHexString data) = .ok data := by
  induction data with
  | nil => rfl
  | cons byte data ih =>
    have hbyte := byte.toNat_lt
    obtain ⟨hhigh, _, hhighValue⟩ := hexDigit_props (n := byte.toNat / 16) (by omega)
    obtain ⟨hlow, _, hlowValue⟩ := hexDigit_props (n := byte.toNat % 16) (by omega)
    have hjoin : UInt8.ofNat (byte.toNat / 16 * 16 + byte.toNat % 16) = byte := by
      rw [Nat.div_add_mod' byte.toNat 16, UInt8.ofNat_toNat]
    simp [fromHexPairs, hhigh, hlow, hhighValue, hlowValue, hjoin, ih, Except.map]

/-- Decoding the hexadecimal form of some bytes gives the bytes back. -/
theorem fromHexString_toHexString (data : ByteString) : fromHexString (toHexString data) = .ok data := by
  rw [fromHexString, if_neg (by simp), fromHexPairs_toHexString]

theorem toHexString_injective : Function.Injective toHexString := fun a b h => by
  have hdecoded := congrArg fromHexString h
  simpa [fromHexString_toHexString] using hdecoded

/-- Lower-case digits in even number are the hexadecimal form of some bytes. -/
theorem exists_toHexString {s : ByteString} (hlen : s.length % 2 = 0) (hs : ∀ c ∈ s, isHexLower c = true) :
    ∃ data, s = toHexString data := by
  induction s using fromHexPairs.induct with
  | case1 a b rest ha => exact absurd (hexDigit_hexDigitValue (hs a (by simp))).2.2 (by simpa using ha)
  | case2 a b rest _ hb => exact absurd (hexDigit_hexDigitValue (hs b (by simp))).2.2 (by simpa using hb)
  | case3 a b rest _ _ ih =>
    obtain ⟨data, rfl⟩ := ih (by simp at hlen; omega) fun c hc => hs c (by simp [hc])
    obtain ⟨ha, hav, _⟩ := hexDigit_hexDigitValue (hs a (by simp))
    obtain ⟨hb, hbv, _⟩ := hexDigit_hexDigitValue (hs b (by simp))
    refine ⟨UInt8.ofNat (hexDigitValue a * 16 + hexDigitValue b) :: data, ?_⟩
    have hbyte : (UInt8.ofNat (hexDigitValue a * 16 + hexDigitValue b)).toNat = hexDigitValue a * 16 + hexDigitValue b :=
      UInt8.toNat_ofNat_of_lt' (by simp [UInt8.size]; omega)
    have hdiv : (hexDigitValue a * 16 + hexDigitValue b) / 16 = hexDigitValue a := by omega
    have hmod : (hexDigitValue a * 16 + hexDigitValue b) % 16 = hexDigitValue b := by omega
    rw [toHexString_cons, hbyte, hdiv, hmod, ha, hb]
  | case4 s hshort =>
    match s, hlen, hshort with
    | [], _, _ => exact ⟨[], rfl⟩
    | [c], hlen, _ => simp at hlen
    | a :: b :: rest, _, hshort => exact absurd rfl (hshort a b rest)

end Hex

/-- The pieces of `size` characters, the last one shorter. The source computes their number with
`std::ceil` on doubles, which is exact for every length that fits in memory. -/
def chunkSubstr (str : ByteString) (size : Nat) : List ByteString := blocks size str

/-- SHAKE256 as a total function of the input and the output length. -/
structure Shake256 where
  squeeze : ByteString → Nat → ByteString
  length_squeeze : ∀ str size, (squeeze str size).length = size

/-- The function whose output is one byte repeated. -/
def Shake256.constant (byte : UInt8) : Shake256 := ⟨fun _ size => List.replicate size byte, by simp⟩

/-- Output sizes are in bits; every caller asks for a positive multiple of eight. -/
def shake256 (H : Shake256) (str : ByteString) (bits : Nat) : ByteString := H.squeeze str (bits / 8)

def shake256Hex (H : Shake256) (str : ByteString) (bits : Nat) : ByteString := toHexString (shake256 H str bits)

@[simp] theorem length_shake256 (H : Shake256) (str : ByteString) (bits : Nat) :
    (shake256 H str bits).length = bits / 8 := H.length_squeeze _ _

@[simp] theorem length_shake256Hex (H : Shake256) (str : ByteString) (bits : Nat) :
    (shake256Hex H str bits).length = 2 * (bits / 8) := by
  simp [shake256Hex]

theorem isHexLower_shake256Hex {H : Shake256} {str : ByteString} {bits : Nat} {c : UInt8}
    (hc : c ∈ shake256Hex H str bits) : isHexLower c = true := isHexLower_toHexString hc

end KnishIO
