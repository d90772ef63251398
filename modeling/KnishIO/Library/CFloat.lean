import KnishIO.Library.BinaryFloat
import KnishIO.Library.CInteger

open ByteString

namespace CFloat

open BinaryFloat

/-- What a prefix denotes, before rounding. -/
inductive Numeral where
  | nan
  | inf (negative : Bool)
  | rational (q : ℚ)

def isHexDigit (c : UInt8) : Bool := Decimal.isDigit c || (97 ≤ c && c ≤ 102) || (65 ≤ c && c ≤ 70)

def hexDigitValue (c : UInt8) : Nat :=
  if Decimal.isDigit c then Decimal.digitValue c else if 97 ≤ c then c.toNat - 87 else c.toNat - 55

def toLower (c : UInt8) : UInt8 := if 65 ≤ c ∧ c ≤ 90 then c + 32 else c

/-- The rest after a word in any letter case. -/
def dropWord (word : String) (s : ByteString) : Option ByteString :=
  if (s.take (ascii word).length).map toLower = ascii word then some (s.drop (ascii word).length) else none

/-- Digits with an optional point: integer part, fraction and the rest. -/
def scanMantissa (digit : UInt8 → Bool) (s : ByteString) : ByteString × ByteString × ByteString :=
  let whole := s.takeWhile digit
  match s.dropWhile digit with
  | [] => (whole, [], [])
  | c :: rest =>
    if c = 46 then (whole, rest.takeWhile digit, rest.dropWhile digit) else (whole, [], c :: rest)

/-- An exponent after its marker letter; without digits the marker does not belong to the number. -/
def scanExponent (marker : UInt8) (s : ByteString) : Int × ByteString :=
  match s with
  | [] => (0, [])
  | c :: rest =>
    if toLower c = marker then
      let (negative, digits) := CInteger.scanSign rest
      if digits.takeWhile Decimal.isDigit = [] then (0, c :: rest)
      else
        let magnitude : Int := Decimal.value (digits.takeWhile Decimal.isDigit)
        (if negative then -magnitude else magnitude, digits.dropWhile Decimal.isDigit)
    else (0, c :: rest)

def mantissaValue (base : Nat) (digitValue : UInt8 → Nat) (whole frac : ByteString) : ℚ :=
  ((whole ++ frac).foldl (fun acc c => acc * base + digitValue c) 0 : Nat) / (base : ℚ) ^ frac.length

def scanDecimal (s : ByteString) : Option (ℚ × ByteString) :=
  let (whole, frac, rest) := scanMantissa Decimal.isDigit s
  if whole = [] ∧ frac = [] then none
  else
    let (exp, rest) := scanExponent 101 rest
    some (mantissaValue 10 Decimal.digitValue whole frac * 10 ^ exp, rest)

/-- A hexadecimal number after its `0x`. -/
def scanHex (s : ByteString) : Option (ℚ × ByteString) :=
  let (whole, frac, rest) := scanMantissa isHexDigit s
  if whole = [] ∧ frac = [] then none
  else
    let (exp, rest) := scanExponent 112 rest
    some (mantissaValue 16 hexDigitValue whole frac * 2 ^ exp, rest)

/-- The optional parenthesised text after `nan`. -/
def dropNanText (s : ByteString) : ByteString :=
  match s with
  | 40 :: rest =>
    match rest.dropWhile fun c => isHexDigit c || (97 ≤ toLower c && toLower c ≤ 122) || c = 95 with
    | 41 :: rest' => rest'
    | _ => s
  | _ => s

/-- An unsigned number. -/
def scanUnsigned (negative : Bool) (s : ByteString) : Option (Numeral × ByteString) :=
  match dropWord "infinity" s, dropWord "inf" s, dropWord "nan" s with
  | some rest, _, _ => some (.inf negative, rest)
  | none, some rest, _ => some (.inf negative, rest)
  | none, none, some rest => some (.nan, dropNanText rest)
  | none, none, none =>
    let decimal := scanDecimal s
    let best := match dropWord "0x" s with
      | some rest => (scanHex rest).or decimal
      | none => decimal
    best.map fun r => (.rational (if negative then -r.1 else r.1), r.2)

/-- The number a text starts with after white space and a sign, and what follows it. -/
def scan (s : ByteString) : Option (Numeral × ByteString) :=
  let (negative, rest) := CInteger.scanSign (s.dropWhile CInteger.isSpace)
  scanUnsigned negative rest

def Numeral.round (F : Format) : Numeral → Value
  | .nan => .nan
  | .inf negative => .inf negative
  | .rational q => BinaryFloat.round F q

/-- `strtod`: the value, and the text from `end` on. Without a conversion the value is zero and `end`
is the start of the text. -/
def strtod (s : ByteString) : Value × ByteString :=
  match scan s with
  | some (n, rest) => (n.round double, rest)
  | none => (.finite 0, s)

/-- Smaller than every normal number of the format also once it is rounded to the significand width. -/
def isTiny (F : Format) (q : ℚ) : Bool :=
  |roundSignificand { F with minExp := F.minExp - 1 } q| < 2 ^ (F.minExp + (F.precision - 1))

/-- `ERANGE`: the value overflows, or it is tiny and not exact. -/
def rangeError (F : Format) (q : ℚ) : Value → Bool
  | .finite r => r ≠ q && isTiny F q
  | _ => true

def outOfRange (F : Format) : Numeral → Bool
  | .rational q => rangeError F q (BinaryFloat.round F q)
  | _ => false

/-- `std::stold`; what follows the number is ignored. -/
def stold (s : ByteString) : Except CInteger.ConversionError Value :=
  match scan s with
  | none => .error .invalidArgument
  | some (n, _) => if outOfRange extended n then .error .outOfRange else .ok (n.round extended)

-- just below the normal range, and rounded up to its first number or not
example : (stold (ascii "3.36210314311209350626e-4932")).isOk = true := by decide +kernel
example : (stold (ascii "3.36210314311209350600e-4932")).isOk = false := by decide +kernel

section Integers

/-- The integer that an optional sign and digits write out. -/
def decimalInt? (s : ByteString) : Option Int :=
  let (negative, digits) := CInteger.scanSign s
  if digits = [] ∨ digits.all Decimal.isDigit = false then none
  else
    let magnitude : Int := Decimal.value digits
    some (if negative then -magnitude else magnitude)

theorem isDigit_plain {c : UInt8} (hc : Decimal.isDigit c = true) :
    toLower c = c ∧ c ≠ 105 ∧ c ≠ 110 ∧ c ≠ 120 ∧ CInteger.isSpace c = false :=
  forall_byte_of_fin (P := fun c => Decimal.isDigit c = true →
    toLower c = c ∧ c ≠ 105 ∧ c ≠ 110 ∧ c ≠ 120 ∧ CInteger.isSpace c = false) (by decide +kernel) c hc

/-- Digits start none of the words. -/
theorem dropWord_digits {c : UInt8} {rest : ByteString} (hds : ∀ d ∈ c :: rest, Decimal.isDigit d = true) :
    dropWord "infinity" (c :: rest) = none ∧ dropWord "inf" (c :: rest) = none ∧ dropWord "nan" (c :: rest) = none ∧
      dropWord "0x" (c :: rest) = none := by
  obtain ⟨hlower, hi, hn, _, _⟩ := isDigit_plain (hds c (by simp))
  have hinfinity : ascii "infinity" = [105, 110, 102, 105, 110, 105, 116, 121] := by decide
  have hinf : ascii "inf" = [105, 110, 102] := by decide
  have hnan : ascii "nan" = [110, 97, 110] := by decide
  have hhex : ascii "0x" = [48, 120] := by decide
  refine ⟨?_, ?_, ?_, ?_⟩
  · simp [dropWord, hinfinity, hlower, hi]
  · simp [dropWord, hinf, hlower, hi]
  · simp [dropWord, hnan, hlower, hn]
  · cases rest with
    | nil => simp [dropWord, hhex]
    | cons d rest =>
      obtain ⟨hlower', _, _, hx, _⟩ := isDigit_plain (hds d (by simp))
      simp [dropWord, hhex, hlower', hx]

theorem scanDecimal_digits {digits : ByteString} (hne : digits ≠ []) (hds : ∀ d ∈ digits, Decimal.isDigit d = true) :
    scanDecimal digits = some ((Decimal.value digits : ℚ), []) := by
  have hscan := Decimal.takeWhile_digits hds (show ∀ c t, [] = c :: t → Decimal.isDigit c = false by simp)
  rw [List.append_nil] at hscan
  simp [scanDecimal, scanMantissa, hscan.1, hscan.2, hne, scanExponent, mantissaValue, Decimal.value]

/-- A written integer is read as a whole. -/
theorem scan_decimalInt {s : ByteString} {k : Int} (h : decimalInt? s = some k) : scan s = some (.rational k, []) := by
  unfold decimalInt? at h
  rcases hsign : CInteger.scanSign s with ⟨negative, digits⟩
  simp only [hsign] at h
  split at h
  · cases h
  next hdigits =>
    push Not at hdigits
    obtain ⟨hne, hall⟩ := hdigits
    have hds : ∀ d ∈ digits, Decimal.isDigit d = true := List.all_eq_true.mp (by simpa using hall)
    obtain ⟨c, rest, rfl⟩ := List.exists_cons_of_ne_nil hne
    have hspace : s.dropWhile CInteger.isSpace = s := by
      cases s with
      | nil => rfl
      | cons d t =>
        simp only [CInteger.scanSign] at hsign
        split_ifs at hsign with hminus hplus
        · subst hminus
          rfl
        · subst hplus
          rfl
        · obtain ⟨_, hsplit⟩ := Prod.mk.inj hsign
          obtain ⟨rfl, _⟩ := List.cons.inj hsplit
          simp [(isDigit_plain (hds d (by simp))).2.2.2.2]
    obtain ⟨hinfinity, hinf, hnan, hhex⟩ := dropWord_digits hds
    have hdecimal := scanDecimal_digits hne hds
    simp only [scan, hspace, hsign, scanUnsigned, hinfinity, hinf, hnan, hhex, hdecimal, Option.map_some,
      Option.some.injEq, Prod.mk.injEq, and_true, Numeral.rational.injEq]
    rw [← Option.some.inj h]
    cases negative <;> simp

theorem double_round_int {k : Int} (hk : |k| < 2 ^ 53) : BinaryFloat.round double (k : ℚ) = .finite k :=
  round_int (F := double) (by decide) (by decide) hk

theorem extended_round_int {k : Int} (hk : |k| < 2 ^ 64) : BinaryFloat.round extended (k : ℚ) = .finite k :=
  round_int (F := extended) (by decide) (by decide) hk

/-- `strtod` reads an integer of at most 53 bits exactly and to its end. -/
theorem strtod_decimalInt {s : ByteString} {k : Int} (h : decimalInt? s = some k) (hk : |k| < 2 ^ 53) :
    strtod s = (.finite k, []) := by
  rw [strtod, scan_decimalInt h]
  simp [Numeral.round, double_round_int hk]

theorem outOfRange_exact {F : Format} {q : ℚ} (h : BinaryFloat.round F q = .finite q) :
    outOfRange F (.rational q) = false := by
  simp [outOfRange, h, rangeError]

/-- `std::stold` reads an integer of at most 64 bits exactly. -/
theorem stold_decimalInt {s : ByteString} {k : Int} (h : decimalInt? s = some k) (hk : |k| < 2 ^ 64) :
    stold s = .ok (.finite k) := by
  have hexact := extended_round_int hk
  simp only [stold, scan_decimalInt h, outOfRange_exact hexact, Numeral.round, hexact, Bool.false_eq_true, ↓reduceIte]

end Integers

end CFloat
