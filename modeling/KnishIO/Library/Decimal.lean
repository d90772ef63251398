import Mathlib.Data.Nat.Digits.Lemmas
import KnishIO.Library.ByteString

open ByteString

namespace Decimal

/-- `isdigit` in the C locale. -/
def isDigit (c : UInt8) : Bool := 48 ≤ c && c ≤ 57

def digitByte (d : Nat) : UInt8 := UInt8.ofNat (48 + d)

def digitValue (c : UInt8) : Nat := c.toNat - 48

/-- `std::to_string` of an unsigned value. -/
def ofNat (n : Nat) : ByteString :=
  if n = 0 then [48] else (Nat.digits 10 n).reverse.map digitByte

/-- `std::to_string` of a signed value. -/
def ofInt (i : Int) : ByteString :=
  if i < 0 then 45 :: ofNat i.natAbs else ofNat i.natAbs

/-- The number a string of digits denotes, most significant digit first. -/
def value (s : ByteString) : Nat := s.foldl (fun acc c => acc * 10 + digitValue c) 0

theorem isDigit_digitByte {d : Nat} (hd : d < 10) : isDigit (digitByte d) = true := by
  interval_cases d <;> decide

@[simp] theorem digitValue_digitByte {d : Nat} (hd : d < 10) : digitValue (digitByte d) = d := by
  interval_cases d <;> decide

theorem isDigit_of_mem_ofNat {n : Nat} {c : UInt8} (hmem : c ∈ ofNat n) : isDigit c = true := by
  unfold ofNat at hmem
  split at hmem
  · obtain rfl := List.mem_singleton.mp hmem
    decide
  · obtain ⟨d, hd, rfl⟩ := List.mem_map.mp hmem
    exact isDigit_digitByte (Nat.digits_lt_base (by norm_num) (List.mem_reverse.mp hd))

theorem ofNat_ne_nil (n : Nat) : ofNat n ≠ [] := by
  unfold ofNat
  split
  · simp
  next hn => simpa [Nat.digits_eq_nil_iff_eq_zero] using hn

theorem foldl_value_map_digitByte (ds : List Nat) (hds : ∀ d ∈ ds, d < 10) :
    value (ds.reverse.map digitByte) = Nat.ofDigits 10 ds := by
  induction ds with
  | nil => rfl
  | cons d ds ih =>
    have hd : digitValue (digitByte d) = d := digitValue_digitByte (hds d (by simp))
    have ih := ih fun x hx => hds x (by simp [hx])
    unfold value at ih ⊢
    simp only [List.reverse_cons, List.map_append, List.foldl_append, List.map_cons, List.map_nil,
      List.foldl_cons, List.foldl_nil, ih, hd, Nat.ofDigits_cons]
    ring

/-- Reading a numeral back gives the number it was written for. -/
@[simp] theorem value_ofNat (n : Nat) : value (ofNat n) = n := by
  unfold ofNat
  split
  next hn => subst hn; decide
  · rw [foldl_value_map_digitByte _ fun d hd => Nat.digits_lt_base (by norm_num) hd, Nat.ofDigits_digits]

theorem ofNat_injective : Function.Injective ofNat := fun a b h => by
  simpa using congrArg value h

/-- Only the numeral of zero starts with a zero. -/
theorem head_ofNat_ne_zero {n : Nat} (hn : n ≠ 0) : ∃ c rest, ofNat n = c :: rest ∧ c ≠ 48 ∧ isDigit c = true := by
  have hne : Nat.digits 10 n ≠ [] := by simpa [Nat.digits_eq_nil_iff_eq_zero] using hn
  have hlast := Nat.getLast_digit_ne_zero 10 hn
  obtain ⟨init, d, hsplit⟩ := List.eq_nil_or_concat (Nat.digits 10 n) |>.resolve_left hne
  have hd : d < 10 := Nat.digits_lt_base (m := n) (by norm_num) (by simp [hsplit])
  have hd0 : d ≠ 0 := by simpa [hsplit] using hlast
  refine ⟨digitByte d, init.reverse.map digitByte, ?_, ?_, isDigit_digitByte hd⟩
  · simp [ofNat, hn, hsplit]
  · interval_cases d <;> first | contradiction | decide

theorem ofInt_ne_nil (i : Int) : ofInt i ≠ [] := by
  unfold ofInt
  split
  · simp
  · exact ofNat_ne_nil _

/-- A signed numeral consists of digits after an optional minus sign. -/
theorem mem_ofInt {i : Int} {c : UInt8} (hmem : c ∈ ofInt i) : c = 45 ∨ isDigit c = true := by
  unfold ofInt at hmem
  split at hmem
  · rcases List.mem_cons.mp hmem with h | h
    · exact .inl h
    · exact .inr (isDigit_of_mem_ofNat h)
  · exact .inr (isDigit_of_mem_ofNat hmem)

/-- Scanning digits stops exactly where they end. -/
theorem isDigit_ascii {c : UInt8} (h : isDigit c = true) : c ≤ 0x7F :=
  forall_byte_of_fin (P := fun c => isDigit c = true → c ≤ 0x7F) (by decide +kernel) c h

theorem ofInt_ascii {i : Int} {c : UInt8} (hmem : c ∈ ofInt i) : c ≤ 0x7F := by
  obtain rfl | hdigit := mem_ofInt hmem
  · decide
  · exact isDigit_ascii hdigit

theorem takeWhile_digits {ds rest : ByteString} (hds : ∀ d ∈ ds, isDigit d = true)
    (hrest : ∀ c t, rest = c :: t → isDigit c = false) :
    (ds ++ rest).takeWhile isDigit = ds ∧ (ds ++ rest).dropWhile isDigit = rest := by
  induction ds with
  | nil =>
    cases rest with
    | nil => simp
    | cons c t => simp [hrest c t rfl]
  | cons d ds ih =>
    have ih := ih fun x hx => hds x (by simp [hx])
    simp [hds d (by simp), ih.1, ih.2]

theorem takeWhile_ofNat (n : Nat) : (ofNat n).takeWhile isDigit = ofNat n ∧ (ofNat n).dropWhile isDigit = [] := by
  have hscan := takeWhile_digits (fun d hd => isDigit_of_mem_ofNat (n := n) hd)
      (show ∀ c t, [] = c :: t → isDigit c = false by simp)
  simpa using hscan

theorem ofNat_ne_minus_cons (n : Nat) (s : ByteString) : ofNat n ≠ 45 :: s := by
  intro h
  have hdigit : isDigit 45 = true := isDigit_of_mem_ofNat (n := n) (by simp [h])
  revert hdigit
  decide

theorem ofInt_injective : Function.Injective ofInt := by
  intro a b h
  unfold ofInt at h
  split at h <;> split at h
  · have := ofNat_injective (List.cons.inj h).2
    omega
  · exact absurd h.symm (ofNat_ne_minus_cons _ _)
  · exact absurd h (ofNat_ne_minus_cons _ _)
  · have := ofNat_injective h
    omega

end Decimal
