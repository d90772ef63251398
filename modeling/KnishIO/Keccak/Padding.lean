import KnishIO.Keccak
import KnishIO.Library.Sponge

open ByteString

namespace KnishIO.Keccak

section Bits

/-- The bits of some bytes, the lowest bit of each byte first. -/
def bits (data : ByteString) : List Bool := data.flatMap fun byte => (List.range 8).map byte.toBitVec.getLsbD

@[simp] theorem bits_cons (byte : UInt8) (data : ByteString) :
    bits (byte :: data) = (List.range 8).map byte.toBitVec.getLsbD ++ bits data := List.flatMap_cons

theorem bits_append (a b : ByteString) : bits (a ++ b) = bits a ++ bits b := List.flatMap_append

@[simp] theorem length_bits (data : ByteString) : (bits data).length = 8 * data.length := by
  induction data with
  | nil => rfl
  | cons byte data ih =>
    rw [bits_cons, List.length_append, ih, List.length_map, List.length_range, List.length_cons]
    omega

theorem bits_injective : Function.Injective bits := by
  intro a b h
  induction a generalizing b with
  | nil =>
    have hlength := congrArg List.length h
    rw [length_bits, length_bits] at hlength
    exact (List.eq_nil_of_length_eq_zero (by simpa using hlength.symm)).symm
  | cons byte a ih =>
    cases b with
    | nil => exact absurd (congrArg List.length h) (by simp)
    | cons byte' b =>
      rw [bits_cons, bits_cons] at h
      obtain ⟨hbyte, hrest⟩ := List.append_inj h (by simp)
      rw [ih hrest]
      congr 1
      refine UInt8.toBitVec_inj.mp (BitVec.eq_of_getLsbD_eq fun n hn => ?_)
      exact List.map_inj_left.mp hbyte n (List.mem_range.mpr hn)

theorem bits_zeros (n : Nat) : bits (List.replicate n 0) = List.replicate (8 * n) false := by
  induction n with
  | zero => rfl
  | succ n ih =>
    have hzero : (List.range 8).map (0 : UInt8).toBitVec.getLsbD = List.replicate 8 false := by decide
    rw [List.replicate_succ, bits_cons, ih, hzero, List.replicate_append_replicate]
    congr 1
    omega

end Bits

section Suffix

/-- The place of the delimiter, the highest bit that is set. -/
def delimiter (suffix : UInt8) : Nat := suffix.toNat.log2

/-- The bits in front of the delimiter, which follow the input. -/
def suffixBits (suffix : UInt8) : List Bool := (bits [suffix]).take (delimiter suffix)

theorem suffix_high : ∀ suffix : UInt8, suffix &&& 0x80 ≠ 0 →
    delimiter suffix = 7 ∧ bits [suffix] = suffixBits suffix ++ [true] :=
  forall_byte_of_fin (by decide +kernel)

theorem suffix_low : ∀ suffix : UInt8, suffix ≠ 0 → suffix &&& 0x80 = 0 → delimiter suffix ≤ 6 ∧
    bits [suffix] = suffixBits suffix ++ true :: List.replicate (7 - delimiter suffix) false ∧
    bits [suffix ^^^ 0x80] = suffixBits suffix ++ true :: (List.replicate (6 - delimiter suffix) false ++ [true]) :=
  forall_byte_of_fin (by decide +kernel)

theorem length_suffixBits : ∀ suffix : UInt8, (suffixBits suffix).length = delimiter suffix :=
  forall_byte_of_fin (by decide +kernel)

end Suffix

section Pad

/-- What the source adds to the state after an input that leaves `filled` bytes in the last block. -/
def padding (rateInBytes : Nat) (delimitedSuffix : UInt8) (filled : Nat) : ByteString :=
  if filled = rateInBytes - 1 then
    if delimitedSuffix &&& 0x80 ≠ 0 then delimitedSuffix :: (List.replicate (rateInBytes - 1) 0 ++ [0x80])
    else [delimitedSuffix ^^^ 0x80]
  else delimitedSuffix :: (List.replicate (rateInBytes - filled - 2) 0 ++ [0x80])

def pad (rateInBytes : Nat) (delimitedSuffix : UInt8) (input : ByteString) : ByteString :=
  input ++ padding rateInBytes delimitedSuffix (input.length % rateInBytes)

variable {rateInBytes : Nat}

/-- The number of zeros, from the place of the delimiter in the last block. -/
theorem zeros_of_place {length place : Nat} (h : length % rateInBytes = place % rateInBytes) :
    (rateInBytes - (length + 2) % rateInBytes) % rateInBytes = (rateInBytes - (place + 2) % rateInBytes) % rateInBytes := by
  rw [Nat.add_mod, h, ← Nat.add_mod]

theorem bits_padding {delimitedSuffix : UInt8} (hsuffix : delimitedSuffix ≠ 0) {filled : Nat} (hfilled : filled < rateInBytes) :
    bits (padding rateInBytes delimitedSuffix filled) =
      suffixBits delimitedSuffix ++ Sponge.multiRatePadding (8 * rateInBytes) (8 * filled + delimiter delimitedSuffix) := by
  have hone : bits [0x80] = List.replicate 7 false ++ [true] := by decide
  have hjoin : ∀ (byte : UInt8) (n : Nat), bits (byte :: (List.replicate n 0 ++ [0x80])) =
      bits [byte] ++ (List.replicate (8 * n + 7) false ++ [true]) := fun byte n => by
    rw [← List.singleton_append, bits_append, bits_append, bits_zeros, hone, ← List.append_assoc (List.replicate _ false),
      List.replicate_append_replicate]
  unfold padding
  split
  case isTrue hlast =>
    split
    case isTrue hhigh =>
      obtain ⟨hplace, hbits⟩ := suffix_high delimitedSuffix hhigh
      have hzeros : (8 * rateInBytes - (8 * filled + 7 + 2) % (8 * rateInBytes)) % (8 * rateInBytes) =
          8 * (rateInBytes - 1) + 7 := by
        have hwrap : 8 * filled + 7 + 2 = 1 + 8 * rateInBytes := by omega
        rw [hwrap, Nat.add_mod_right, Nat.mod_eq_of_lt (show 1 < 8 * rateInBytes by omega), Nat.mod_eq_of_lt (by omega)]
        omega
      rw [hjoin, hbits, hplace, Sponge.multiRatePadding, hzeros, List.append_assoc, List.singleton_append]
    case isFalse hlow =>
      obtain ⟨hplace, -, hbits⟩ := suffix_low delimitedSuffix hsuffix (not_not.mp hlow)
      have hzeros : (8 * rateInBytes - (8 * filled + delimiter delimitedSuffix + 2) % (8 * rateInBytes)) % (8 * rateInBytes) =
          6 - delimiter delimitedSuffix := by
        obtain hsix | hless : delimiter delimitedSuffix = 6 ∨ delimiter delimitedSuffix < 6 := by omega
        · have hfull : 8 * filled + delimiter delimitedSuffix + 2 = 8 * rateInBytes := by omega
          rw [hfull, Nat.mod_self, Nat.sub_zero, Nat.mod_self, hsix]
        · rw [Nat.mod_eq_of_lt (show 8 * filled + delimiter delimitedSuffix + 2 < 8 * rateInBytes by omega),
            Nat.mod_eq_of_lt (by omega)]
          omega
      rw [hbits, Sponge.multiRatePadding, hzeros]
  case isFalse hearlier =>
    obtain ⟨n, hn⟩ : ∃ n, n = rateInBytes - filled - 2 := ⟨_, rfl⟩
    have hplace : delimiter delimitedSuffix ≤ 7 ∧
        bits [delimitedSuffix] = suffixBits delimitedSuffix ++ true :: List.replicate (7 - delimiter delimitedSuffix) false := by
      by_cases hhigh : delimitedSuffix &&& 0x80 = 0
      · obtain ⟨hplace, hbits, -⟩ := suffix_low delimitedSuffix hsuffix hhigh
        exact ⟨by omega, hbits⟩
      · obtain ⟨hplace, hbits⟩ := suffix_high delimitedSuffix hhigh
        rw [hplace]
        exact ⟨le_rfl, hbits⟩
    obtain ⟨hplace, hbits⟩ := hplace
    have hzeros : (8 * rateInBytes - (8 * filled + delimiter delimitedSuffix + 2) % (8 * rateInBytes)) % (8 * rateInBytes) =
        7 - delimiter delimitedSuffix + (8 * n + 7) := by
      rw [Nat.mod_eq_of_lt (show 8 * filled + delimiter delimitedSuffix + 2 < 8 * rateInBytes by omega),
        Nat.mod_eq_of_lt (by omega)]
      omega
    rw [← hn, hjoin, hbits, Sponge.multiRatePadding, hzeros, List.append_assoc, List.cons_append,
      ← List.append_assoc (List.replicate _ _), List.replicate_append_replicate]

/-- The padded input, bit by bit: the input, the suffix up to its delimiter, and the multi-rate padding that starts
with it. -/
theorem bits_pad (hrate : 0 < rateInBytes) {delimitedSuffix : UInt8} (hsuffix : delimitedSuffix ≠ 0) (input : ByteString) :
    bits (pad rateInBytes delimitedSuffix input) = bits input ++ suffixBits delimitedSuffix ++
      Sponge.multiRatePadding (8 * rateInBytes) (bits input ++ suffixBits delimitedSuffix).length := by
  have hplace : (bits input ++ suffixBits delimitedSuffix).length % (8 * rateInBytes) =
      (8 * (input.length % rateInBytes) + delimiter delimitedSuffix) % (8 * rateInBytes) := by
    have hblocks : 8 * input.length ≡ 8 * (input.length % rateInBytes) [MOD 8 * rateInBytes] :=
      (Nat.mod_modEq input.length rateInBytes).symm.mul_left' 8
    rw [List.length_append, length_bits, length_suffixBits]
    exact hblocks.add_right _
  rw [pad, bits_append, bits_padding hsuffix (Nat.mod_lt _ hrate), List.append_assoc]
  rw [Sponge.multiRatePadding, Sponge.multiRatePadding, zeros_of_place hplace]

/-- Different inputs stay different under the padding. -/
theorem pad_injective (hrate : 0 < rateInBytes) {delimitedSuffix : UInt8} (hsuffix : delimitedSuffix ≠ 0) :
    Function.Injective (pad rateInBytes delimitedSuffix) := by
  intro input input' h
  have hbits := congrArg bits h
  rw [bits_pad hrate hsuffix, bits_pad hrate hsuffix] at hbits
  exact bits_injective (List.append_cancel_right (Sponge.multiRatePadding_inj hbits))

end Pad

end KnishIO.Keccak
