import KnishIO.CryptoBigint
import KnishIO.Utility.BaseConvert
import Mathlib.Data.List.TakeWhile

open ByteString

namespace KnishIO

section Numerals

/-- A lower-case hexadecimal numeral of a number, without leading zeros. -/
structure HexNumeral (s : ByteString) (n : Nat) : Prop where
  lower : ∀ c ∈ s, isHexLower c = true
  value : hexNumber s = n
  minimal : s = [48] ∨ ∃ c rest, s = c :: rest ∧ c ≠ 48

theorem map_hexDigitValue_hexDigit {ds : List Nat} (h : ∀ d ∈ ds, d < 16) : (ds.map Json.hexDigit).map hexDigitValue = ds := by
  rw [List.map_map]
  conv_rhs => rw [← List.map_id ds]
  exact List.map_congr_left fun d hd => (hexDigit_props (h d hd)).2.2

theorem hexNumeral_streamHex (n : Nat) : HexNumeral (CryptoBigInt.streamHex n) n := by
  unfold CryptoBigInt.streamHex
  split
  next hzero =>
    subst hzero
    exact ⟨List.all_eq_true.mp (by decide), by decide, .inl rfl⟩
  next hne =>
    have hlt : ∀ d ∈ (Nat.digits 16 n).reverse, d < 16 := fun d hd =>
      Nat.digits_lt_base (by norm_num) (List.mem_reverse.mp hd)
    refine ⟨fun c hc => ?_, ?_, .inr ?_⟩
    · obtain ⟨d, hd, rfl⟩ := List.mem_map.mp hc
      exact (hexDigit_props (hlt d hd)).2.1
    · rw [hexNumber, map_hexDigitValue_hexDigit hlt, Radix.value_reverse_digits]
    · have hdigits : Nat.digits 16 n ≠ [] := Nat.digits_ne_nil_iff_ne_zero.mpr hne
      have hlast := Nat.getLast_digit_ne_zero 16 hne
      rw [← List.dropLast_append_getLast hdigits, List.reverse_append, List.reverse_singleton, List.singleton_append,
        List.map_cons]
      refine ⟨_, _, rfl, fun hzero => hlast ?_⟩
      have hvalue := (hexDigit_props (hlt _ (List.mem_reverse.mpr (List.getLast_mem hdigits)))).2.2
      rw [← hvalue, hzero]
      rfl

end Numerals

namespace CryptoBigInt

/-- The number that little-endian limbs denote. -/
def value (n : CryptoBigInt) : Nat := Nat.ofDigits (2 ^ 32) n.limbs

/-- Every limb fits its 32 bits. -/
def Fits (limbs : List Nat) : Prop := ∀ limb ∈ limbs, limb < 2 ^ 32

theorem foldr_limb (limb : ByteString) :
    limb.foldr (fun c acc => hexDigitValue c + 16 * acc) 0 = Nat.ofDigits 16 (limb.map hexDigitValue) := by
  induction limb with
  | nil => rfl
  | cons c limb ih => rw [List.foldr_cons, ih, List.map_cons, Nat.ofDigits_cons]

/-- Eight digits to a limb keep the number. -/
theorem ofDigits_blocks (s : ByteString) :
    Nat.ofDigits (2 ^ 32) ((blocks 8 s).map fun limb => Nat.ofDigits 16 (limb.map hexDigitValue)) =
      Nat.ofDigits 16 (s.map hexDigitValue) := by
  induction s using block_induction (show 0 < 8 by norm_num) with
  | nil => rfl
  | step s hs ih =>
    rw [blocks_of_ne_nil (by norm_num) hs, List.map_cons, Nat.ofDigits_cons, ih]
    conv_rhs => rw [← List.take_append_drop 8 s, List.map_append, Nat.ofDigits_append, List.length_map, List.length_take]
    by_cases hlong : 8 ≤ s.length
    · rw [min_eq_left hlong]
      norm_num
    · rw [List.drop_eq_nil_of_le (by omega)]
      simp

theorem value_fromHexString {s : ByteString} (hne : s ≠ []) : (fromHexString s).value = hexNumber s := by
  rw [value, fromHexString, if_neg hne, hexNumber, Radix.value_eq_ofDigits, ← List.map_reverse, ← ofDigits_blocks]
  refine congrArg (Nat.ofDigits (2 ^ 32)) (List.map_congr_left fun limb _ => foldr_limb limb)

theorem fits_fromHexString {s : ByteString} (hne : s ≠ []) (hhex : ∀ c ∈ s, isxdigit c = true) :
    Fits (fromHexString s).limbs := by
  intro limb hlimb
  rw [fromHexString, if_neg hne] at hlimb
  obtain ⟨block, hblock, rfl⟩ := List.mem_map.mp hlimb
  rw [foldr_limb]
  obtain ⟨i, -, rfl⟩ := List.mem_map.mp hblock
  have hlt := Nat.ofDigits_lt_base_pow_length (b := 16) (l := (((s.reverse.drop (i * 8)).take 8).map hexDigitValue))
    (by norm_num) fun d hd => by
      obtain ⟨c, hc, rfl⟩ := List.mem_map.mp hd
      have hmem : c ∈ s := List.mem_reverse.mp (List.drop_subset _ _ (List.take_subset _ _ hc))
      exact (hexDigitValue_lt (hhex c hmem)).1
  refine lt_of_lt_of_le hlt ?_
  have hpow := Nat.pow_le_pow_right (n := 16) (by norm_num)
    (show (((s.reverse.drop (i * 8)).take 8).map hexDigitValue).length ≤ 8 by simp)
  exact hpow.trans (by norm_num)

theorem length_constantTimeAdd (pairs : List (Nat × Nat)) (carry : Nat) :
    (constantTimeAdd pairs carry).1.length = pairs.length := by
  induction pairs generalizing carry with
  | nil => rfl
  | cons pair rest ih => exact congrArg (· + 1) (ih _)

/-- The limbs and the carry hold the sum. -/
theorem constantTimeAdd_value (pairs : List (Nat × Nat)) (carry : Nat) :
    Nat.ofDigits (2 ^ 32) (constantTimeAdd pairs carry).1 + (2 ^ 32) ^ pairs.length * (constantTimeAdd pairs carry).2 =
      Nat.ofDigits (2 ^ 32) (pairs.map (·.1)) + Nat.ofDigits (2 ^ 32) (pairs.map (·.2)) + carry := by
  induction pairs generalizing carry with
  | nil => simp [constantTimeAdd]
  | cons pair rest ih =>
    obtain ⟨a, b⟩ := pair
    have hrest := ih ((a + b + carry) / 2 ^ 32)
    have hsum := Nat.mod_add_div (a + b + carry) (2 ^ 32)
    simp only [constantTimeAdd, Nat.ofDigits_cons, List.map_cons, List.length_cons, pow_succ (2 ^ 32) rest.length]
    -- the low limb of this step, the limbs of the rest, and the carries
    generalize (a + b + carry) % 2 ^ 32 = low at hsum ⊢
    generalize (a + b + carry) / 2 ^ 32 = next at hsum hrest ⊢
    generalize Nat.ofDigits (2 ^ 32) (constantTimeAdd rest next).1 = limbs at hrest ⊢
    generalize (constantTimeAdd rest next).2 = out at hrest ⊢
    calc low + 2 ^ 32 * limbs + (2 ^ 32) ^ rest.length * 2 ^ 32 * out
        = low + 2 ^ 32 * (limbs + (2 ^ 32) ^ rest.length * out) := by ring
      _ = low + 2 ^ 32 * next +
          2 ^ 32 * (Nat.ofDigits (2 ^ 32) (rest.map (·.1)) + Nat.ofDigits (2 ^ 32) (rest.map (·.2))) := by
        rw [hrest]
        ring
      _ = _ := by
        rw [hsum]
        ring

/-- The limbs fit, and the carry is at most one. -/
theorem constantTimeAdd_fits {pairs : List (Nat × Nat)} {carry : Nat}
    (hpairs : ∀ p ∈ pairs, p.1 < 2 ^ 32 ∧ p.2 < 2 ^ 32) (hcarry : carry ≤ 1) :
    Fits (constantTimeAdd pairs carry).1 ∧ (constantTimeAdd pairs carry).2 ≤ 1 := by
  induction pairs generalizing carry with
  | nil => exact ⟨nofun, hcarry⟩
  | cons pair rest ih =>
    obtain ⟨⟨ha, hb⟩, hrest⟩ := List.forall_mem_cons.mp hpairs
    obtain ⟨hfits, hle⟩ := ih hrest (show (pair.1 + pair.2 + carry) / 2 ^ 32 ≤ 1 by omega)
    exact ⟨List.forall_mem_cons.mpr ⟨Nat.mod_lt _ (by norm_num), hfits⟩, hle⟩

/-- The loop in the source's own types. -/
def constantTimeAdd32 : List (UInt32 × UInt32) → UInt64 → List UInt32 × UInt32
  | [], carry => ([], carry.toUInt32)
  | (a, b) :: rest, carry =>
    let sum := a.toUInt64 + b.toUInt64 + carry
    let r := constantTimeAdd32 rest (sum >>> 32)
    ((sum &&& 0xFFFFFFFF).toUInt32 :: r.1, r.2)

/-- The sum of two limbs and a carry does not wrap. -/
theorem constantTimeAdd32_eq {pairs : List (UInt32 × UInt32)} {carry : UInt64} (hcarry : carry.toNat ≤ 1) :
    ((constantTimeAdd32 pairs carry).1.map UInt32.toNat, (constantTimeAdd32 pairs carry).2.toNat) =
      constantTimeAdd (pairs.map fun p => (p.1.toNat, p.2.toNat)) carry.toNat := by
  induction pairs generalizing carry with
  | nil =>
    have hlow : carry.toUInt32.toNat = carry.toNat := by
      rw [UInt64.toNat_toUInt32]
      exact Nat.mod_eq_of_lt (by omega)
    simp [constantTimeAdd32, constantTimeAdd, hlow]
  | cons pair rest ih =>
    obtain ⟨a, b⟩ := pair
    have ha := a.toNat_lt
    have hb := b.toNat_lt
    have hsum : (a.toUInt64 + b.toUInt64 + carry).toNat = a.toNat + b.toNat + carry.toNat := by
      rw [UInt64.toNat_add, UInt64.toNat_add, UInt32.toNat_toUInt64, UInt32.toNat_toUInt64]
      omega
    have hhigh : ((a.toUInt64 + b.toUInt64 + carry) >>> 32).toNat = (a.toNat + b.toNat + carry.toNat) / 2 ^ 32 := by
      rw [UInt64.toNat_shiftRight, hsum, Nat.shiftRight_eq_div_pow]
      rfl
    have hlow : ((a.toUInt64 + b.toUInt64 + carry) &&& 0xFFFFFFFF).toUInt32.toNat =
        (a.toNat + b.toNat + carry.toNat) % 2 ^ 32 := by
      have hmask : (0xFFFFFFFF : UInt64).toNat = 2 ^ 32 - 1 := by decide
      rw [UInt64.toNat_toUInt32, UInt64.toNat_and, hsum, hmask, Nat.and_two_pow_sub_one_eq_mod]
      exact Nat.mod_mod _ _
    have hcarried : ((a.toUInt64 + b.toUInt64 + carry) >>> 32).toNat ≤ 1 := by
      rw [hhigh]
      omega
    have hrest := ih hcarried
    rw [hhigh] at hrest
    obtain ⟨hlimbs, hout⟩ := Prod.mk.inj hrest
    simp only [constantTimeAdd32, constantTimeAdd, List.map_cons, hlow, hlimbs, hout]

/-- The zeros that a number ends with, most significant limbs last, do not count. -/
theorem significant_append_zeros (limbs : List Nat) :
    ∃ k, limbs = (limbs.reverse.dropWhile (· = 0)).reverse ++ List.replicate k 0 := by
  refine ⟨(limbs.reverse.takeWhile (· = 0)).length, ?_⟩
  have hzeros : limbs.reverse.takeWhile (· = 0) = List.replicate (limbs.reverse.takeWhile (· = 0)).length 0 :=
    List.eq_replicate_iff.mpr ⟨rfl, fun x hx => by
      simpa using List.all_eq_true.mp (List.all_takeWhile (p := (· = 0)) (l := limbs.reverse)) x hx⟩
  have hsplit := congrArg List.reverse (List.takeWhile_append_dropWhile (p := (· = 0)) (l := limbs.reverse))
  rw [List.reverse_append, List.reverse_reverse, hzeros, List.reverse_replicate] at hsplit
  exact hsplit.symm

theorem normalize_spec (limbs : List Nat) :
    Nat.ofDigits (2 ^ 32) (normalize limbs) = Nat.ofDigits (2 ^ 32) limbs ∧ (Fits limbs → Fits (normalize limbs)) := by
  obtain ⟨k, hlimbs⟩ := significant_append_zeros limbs
  unfold normalize
  split
  next hnil =>
    rw [hnil, List.reverse_nil, List.nil_append] at hlimbs
    refine ⟨?_, fun hfits x hx => hfits x (List.take_subset _ _ hx)⟩
    rw [hlimbs, List.take_replicate, Nat.ofDigits_replicate_zero, Nat.ofDigits_replicate_zero]
  next first rest hcons =>
    rw [hcons] at hlimbs
    refine ⟨?_, fun hfits x hx => hfits x ?_⟩
    · conv_rhs => rw [hlimbs, Nat.ofDigits_append_replicate_zero]
    · rw [hlimbs]
      exact List.mem_append_left _ hx

theorem value_add {n m : CryptoBigInt} (hn : Fits n.limbs) (hm : Fits m.limbs) :
    (n.add m).value = n.value + m.value ∧ Fits (n.add m).limbs := by
  let maxSize := max n.limbs.length m.limbs.length
  let left := n.limbs ++ List.replicate (maxSize - n.limbs.length) 0
  let right := m.limbs ++ List.replicate (maxSize - m.limbs.length) 0
  have hleft : left.length = maxSize := by simp [left, maxSize]
  have hright : right.length = maxSize := by simp [right, maxSize]
  have hpadded {limbs : List Nat} {k : Nat} (h : Fits limbs) : Fits (limbs ++ List.replicate k 0) := fun x hx => by
    obtain hx | hx := List.mem_append.mp hx
    · exact h x hx
    · rw [List.eq_of_mem_replicate hx]
      norm_num
  have hpairs : ∀ p ∈ left.zip right, p.1 < 2 ^ 32 ∧ p.2 < 2 ^ 32 := fun p hp =>
    ⟨hpadded hn _ (List.of_mem_zip hp).1, hpadded hm _ (List.of_mem_zip hp).2⟩
  obtain ⟨hfits, hcarry⟩ := constantTimeAdd_fits hpairs (show 0 ≤ 1 by norm_num)
  have hsum := constantTimeAdd_value (left.zip right) 0
  rw [List.map_fst_zip (by omega), List.map_snd_zip (by omega), Nat.ofDigits_append_replicate_zero,
    Nat.ofDigits_append_replicate_zero, Nat.add_zero] at hsum
  have hlength := length_constantTimeAdd (left.zip right) 0
  obtain ⟨hvalue, hnormal⟩ := normalize_spec ((constantTimeAdd (left.zip right) 0).1 ++ [(constantTimeAdd (left.zip right) 0).2])
  constructor
  · refine hvalue.trans ?_
    rw [Nat.ofDigits_append, Nat.ofDigits_singleton, hlength, hsum]
    rfl
  · refine hnormal fun x hx => ?_
    obtain hx | hx := List.mem_append.mp hx
    · exact hfits x hx
    · rw [List.mem_singleton.mp hx]
      omega

theorem streamHex_of_pos {n : Nat} (hn : 0 < n) : streamHex n = (Nat.digits 16 n).reverse.map Json.hexDigit :=
  if_neg (by omega)

/-- A limb below a positive number is written with eight digits. -/
theorem streamHex_add {x n : Nat} (hx : x < 2 ^ 32) (hn : 0 < n) :
    streamHex (x + 2 ^ 32 * n) = streamHex n ++ padLeft 8 48 (streamHex x) := by
  have hbase : (2 ^ 32 : Nat) = 16 ^ 8 := by norm_num
  rw [hbase] at hx ⊢
  have hzero : Json.hexDigit 0 = 48 := by decide
  rw [streamHex_of_pos (by omega), streamHex_of_pos hn, Radix.digits_add_pow_mul (by norm_num) hx hn, List.reverse_append,
    List.reverse_append, List.map_append, List.map_append, List.reverse_replicate, List.map_replicate, hzero]
  congr 1
  obtain rfl | hpos := Nat.eq_zero_or_pos x
  · decide
  · rw [streamHex_of_pos hpos, padLeft, List.length_map, List.length_reverse]

/-- The limbs in order of significance, the first one without padding, are the numeral. -/
theorem streamHex_limbs {first : Nat} {rest : List Nat} (hpos : 0 < first) (hrest : Fits rest) :
    streamHex first ++ rest.flatMap (fun limb => padLeft 8 48 (streamHex limb)) =
      streamHex (Nat.ofDigits (2 ^ 32) (first :: rest).reverse) ∧ 0 < Nat.ofDigits (2 ^ 32) (first :: rest).reverse := by
  induction rest using List.reverseRecOn with
  | nil => simpa using hpos
  | append_singleton rest limb ih =>
    obtain ⟨hwritten, hvalue⟩ := ih fun x hx => hrest x (List.mem_append_left _ hx)
    have hlimb := hrest limb (List.mem_append_right _ (List.mem_singleton_self _))
    have hreverse : (first :: (rest ++ [limb])).reverse = limb :: (first :: rest).reverse := by simp
    rw [hreverse, Nat.ofDigits_cons, streamHex_add hlimb hvalue, ← hwritten, List.flatMap_append,
      List.flatMap_singleton, List.append_assoc]
    exact ⟨rfl, by omega⟩

theorem toHexString_eq {n : CryptoBigInt} (hfits : Fits n.limbs) : n.toHexString = streamHex n.value := by
  obtain ⟨k, hlimbs⟩ := significant_append_zeros n.limbs
  have hvalue : n.value = Nat.ofDigits (2 ^ 32) (n.limbs.reverse.dropWhile (· = 0)).reverse := by
    rw [value]
    conv_lhs => rw [hlimbs, Nat.ofDigits_append_replicate_zero]
  unfold toHexString
  split
  next hzero =>
    have hnil : n.limbs.reverse.dropWhile (· = 0) = [] := by
      rw [List.dropWhile_eq_nil_iff]
      intro x hx
      exact List.all_eq_true.mp hzero x (List.mem_reverse.mp hx)
    rw [hvalue, hnil]
    rfl
  next =>
    split
    next hnil =>
      rw [hvalue, hnil]
      rfl
    next first rest hcons =>
      have hfirst : 0 < first := by
        have hhead := List.head?_dropWhile_not (p := (· = 0)) n.limbs.reverse
        rw [hcons] at hhead
        exact Nat.pos_of_ne_zero (by simpa using hhead)
      have hsubset : ∀ x ∈ first :: rest, x ∈ n.limbs := fun x hx => by
        rw [← hcons] at hx
        exact List.mem_reverse.mp (List.dropWhile_subset _ hx)
      rw [hvalue, hcons]
      exact (streamHex_limbs hfirst fun x hx => hfits x (hsubset x (List.mem_cons_of_mem _ hx))).1

end CryptoBigInt

namespace WalletCrypto

theorem isValidHex_iff {s : ByteString} : isValidHex s = true ↔ s ≠ [] ∧ ∀ c ∈ s, isxdigit c = true := by
  simp [isValidHex]

/-- The sum as a numeral. -/
def hexSum (a b : ByteString) : ByteString := CryptoBigInt.streamHex (hexNumber a + hexNumber b)

theorem constantTimeHexAdd_eq {a b : ByteString} (ha : isValidHex a = true) (hb : isValidHex b = true) :
    constantTimeHexAdd a b = .ok (hexSum a b) := by
  obtain ⟨hane, hahex⟩ := isValidHex_iff.mp ha
  obtain ⟨hbne, hbhex⟩ := isValidHex_iff.mp hb
  obtain ⟨hvalue, hfits⟩ := CryptoBigInt.value_add (CryptoBigInt.fits_fromHexString hane hahex)
    (CryptoBigInt.fits_fromHexString hbne hbhex)
  rw [CryptoBigInt.value_fromHexString hane, CryptoBigInt.value_fromHexString hbne] at hvalue
  simp [constantTimeHexAdd, ha, hb, CryptoBigInt.toHexString_eq hfits, hvalue, hexSum]

/-- Hexadecimal addition is exact, and its result is the numeral of the sum. -/
theorem constantTimeHexAdd_exact {a b : ByteString} (ha : a ≠ []) (hahex : ∀ c ∈ a, isxdigit c = true) (hb : b ≠ [])
    (hbhex : ∀ c ∈ b, isxdigit c = true) :
    ∃ sum, constantTimeHexAdd a b = .ok sum ∧ HexNumeral sum (hexNumber a + hexNumber b) :=
  ⟨_, constantTimeHexAdd_eq (isValidHex_iff.mpr ⟨ha, hahex⟩) (isValidHex_iff.mpr ⟨hb, hbhex⟩), hexNumeral_streamHex _⟩

theorem constantTimeHexAdd_exact_carry :
    ∃ sum, constantTimeHexAdd (ascii "00ffffFFFF") (ascii "1") = .ok sum ∧
      HexNumeral sum (hexNumber (ascii "00ffffFFFF") + hexNumber (ascii "1")) :=
  constantTimeHexAdd_exact (by decide) (List.all_eq_true.mp (by decide)) (by decide) (List.all_eq_true.mp (by decide))

end WalletCrypto

end KnishIO
