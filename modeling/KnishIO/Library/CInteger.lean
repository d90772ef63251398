import KnishIO.Library.Decimal

open ByteString

namespace CInteger

/-- `isspace` in the C locale. -/
def isSpace (c : UInt8) : Bool := c = 32 || (9 ≤ c && c ≤ 13)

/-- An optional sign: whether it was a minus, and the rest. -/
def scanSign : ByteString → Bool × ByteString
  | [] => (false, [])
  | c :: rest => if c = 45 then (true, rest) else if c = 43 then (false, rest) else (false, c :: rest)

/-- The subject sequence of `strtol`: white space, sign, digits. Absent without a digit. -/
def scan (s : ByteString) : Option (Int × ByteString) :=
  let (negative, rest) := scanSign (s.dropWhile isSpace)
  let digits := rest.takeWhile Decimal.isDigit
  if digits = [] then none
  else
    let magnitude : Int := Decimal.value digits
    some (if negative then -magnitude else magnitude, rest.dropWhile Decimal.isDigit)

/-- `strtoll`: zero without a conversion, the nearest bound on overflow. -/
def strtoll (s : ByteString) : Int64 :=
  match scan s with
  | none => 0
  | some (i, _) => Int64.ofInt (max (-2 ^ 63) (min (2 ^ 63 - 1) i))

inductive ConversionError where
  | invalidArgument
  | outOfRange
  deriving DecidableEq, Repr

/-- A conversion to a signed type of the given width; what follows the digits is ignored. -/
def toSigned (width : Nat) (s : ByteString) : Except ConversionError Int :=
  match scan s with
  | none => .error .invalidArgument
  | some (i, _) => if -2 ^ (width - 1) ≤ i ∧ i < 2 ^ (width - 1) then .ok i else .error .outOfRange

/-- `std::stoll`. -/
def stoll (s : ByteString) : Except ConversionError Int := toSigned 64 s

/-- `std::stoi`. -/
def stoi (s : ByteString) : Except ConversionError Int := toSigned 32 s

theorem scan_ofInt (i : Int) : scan (Decimal.ofInt i) = some (i, []) := by
  have hdigits := Decimal.takeWhile_ofNat i.natAbs
  have hne := Decimal.ofNat_ne_nil i.natAbs
  unfold Decimal.ofInt
  by_cases hneg : i < 0
  · have hsign : scanSign ((45 :: Decimal.ofNat i.natAbs).dropWhile isSpace) = (true, Decimal.ofNat i.natAbs) := rfl
    rw [if_pos hneg, scan, hsign]
    simp only [hdigits.1, hdigits.2, hne, ↓reduceIte, Decimal.value_ofNat]
    rw [show (-(i.natAbs : Int)) = i by omega]
  · obtain ⟨c, ds, hsplit⟩ := List.exists_cons_of_ne_nil hne
    have hc : Decimal.isDigit c = true := Decimal.isDigit_of_mem_ofNat (n := i.natAbs) (by simp [hsplit])
    have hstart : isSpace c = false ∧ c ≠ 45 ∧ c ≠ 43 :=
      forall_byte_of_fin (P := fun c => Decimal.isDigit c = true → isSpace c = false ∧ c ≠ 45 ∧ c ≠ 43)
        (by decide +kernel) c hc
    have hsign : scanSign ((Decimal.ofNat i.natAbs).dropWhile isSpace) = (false, Decimal.ofNat i.natAbs) := by
      rw [hsplit]
      simp [hstart.1, scanSign, hstart.2.1, hstart.2.2]
    rw [if_neg hneg, scan, hsign]
    simp only [hdigits.1, hdigits.2, hne, ↓reduceIte, Decimal.value_ofNat]
    rw [show (i.natAbs : Int) = i by omega]
    simp

/-- Reading back what `to_string` wrote. -/
theorem strtoll_ofInt (i : Int64) : strtoll (Decimal.ofInt i.toInt) = i := by
  have hlow := i.le_toInt
  have hhigh := i.toInt_lt
  rw [strtoll, scan_ofInt]
  simp only
  rw [show max (-2 ^ 63) (min (2 ^ 63 - 1) i.toInt) = i.toInt by omega, Int64.ofInt_toInt]

theorem stoi_ofInt {i : Int} (hlow : -2 ^ 31 ≤ i) (hhigh : i < 2 ^ 31) : stoi (Decimal.ofInt i) = .ok i := by
  rw [stoi, toSigned, scan_ofInt]
  exact if_pos ⟨hlow, hhigh⟩

theorem stoll_ofInt {i : Int} (hlow : -2 ^ 63 ≤ i) (hhigh : i < 2 ^ 63) : stoll (Decimal.ofInt i) = .ok i := by
  rw [stoll, toSigned, scan_ofInt]
  exact if_pos ⟨hlow, hhigh⟩

end CInteger
