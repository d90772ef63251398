import KnishIO.Storage.SecretEnvelope
import KnishIO.Wallet

open ByteString

namespace KnishIO

section Shifts

/-- `value = (value << bits) | digit`. -/
def shiftIn (bits : Nat) (value digit : UInt32) : UInt32 := (value <<< UInt32.ofNat bits) ||| digit

/-- A group of three bytes as the encoders shift it. -/
def encodeShifted (group : ByteString) : ByteString :=
  let value := (group.foldl (fun v b => shiftIn 8 v b.toUInt32) 0) <<< UInt32.ofNat ((3 - group.length) * 8)
  (List.range 4).map fun j =>
    if j ≤ group.length then base64Chars.getD ((value >>> UInt32.ofNat (18 - j * 6)) &&& 0x3F).toNat 0 else 61

/-- A group of four symbols as the decoders shift it. -/
def decodeShifted (group : ByteString) : ByteString :=
  let digits := group.filterMap base64Index
  let value := (digits.foldl (fun v d => shiftIn 6 v (UInt32.ofNat d)) 0) <<< UInt32.ofNat ((4 - digits.length) * 6)
  (List.range (digits.length - 1)).map fun j => ((value >>> UInt32.ofNat (16 - j * 8)) &&& 0xFF).toUInt8

theorem toNat_shiftLeft_of_lt {v : UInt32} (bits : Nat) (hbits : bits < 32) (h : v.toNat * 2 ^ bits < 2 ^ 32) :
    (v <<< UInt32.ofNat bits).toNat = v.toNat * 2 ^ bits := by
  rw [UInt32.toNat_shiftLeft, UInt32.toNat_ofNat_of_lt' (by simp [UInt32.size]; omega), Nat.mod_eq_of_lt hbits,
    Nat.shiftLeft_eq, Nat.mod_eq_of_lt h]

theorem toNat_shiftIn {v d : UInt32} {bits : Nat} (hbits : bits < 32) (hv : v.toNat * 2 ^ bits < 2 ^ 32)
    (hd : d.toNat < 2 ^ bits) : (shiftIn bits v d).toNat = v.toNat * 2 ^ bits + d.toNat := by
  rw [shiftIn, UInt32.toNat_or, toNat_shiftLeft_of_lt _ hbits hv, ← Nat.shiftLeft_eq, ← Nat.shiftLeft_add_eq_or_of_lt hd]

theorem toNat_shiftRight {v : UInt32} {bits : Nat} (hbits : bits < 32) :
    (v >>> UInt32.ofNat bits).toNat = v.toNat / 2 ^ bits := by
  rw [UInt32.toNat_shiftRight, UInt32.toNat_ofNat_of_lt' (by simp [UInt32.size]; omega), Nat.mod_eq_of_lt hbits,
    Nat.shiftRight_eq_div_pow]

/-- Digits shifted in make a number, as long as it fits. -/
theorem toNat_foldl_shiftIn {α : Type} (bits : Nat) (hbits : bits < 32) (digit : α → UInt32) (xs : List α)
    (hdigits : ∀ x ∈ xs, (digit x).toNat < 2 ^ bits) {v : UInt32} {k : Nat} (hv : v.toNat < 2 ^ k)
    (hfit : k + bits * xs.length ≤ 32) :
    (xs.foldl (fun v x => shiftIn bits v (digit x)) v).toNat =
        xs.foldl (fun n x => n * 2 ^ bits + (digit x).toNat) v.toNat ∧
      (xs.foldl (fun v x => shiftIn bits v (digit x)) v).toNat < 2 ^ (k + bits * xs.length) := by
  induction xs generalizing v k with
  | nil => simpa using hv
  | cons x xs ih =>
    have hx := hdigits x List.mem_cons_self
    have hmul : v.toNat * 2 ^ bits < 2 ^ 32 := by
      have : v.toNat * 2 ^ bits < 2 ^ k * 2 ^ bits := Nat.mul_lt_mul_of_pos_right hv (Nat.two_pow_pos _)
      rw [← Nat.pow_add] at this
      refine this.trans_le (Nat.pow_le_pow_right (by norm_num) ?_)
      rw [List.length_cons, Nat.mul_succ] at hfit
      omega
    have hstep := toNat_shiftIn hbits hmul hx
    have hnext : (shiftIn bits v (digit x)).toNat < 2 ^ (k + bits) := by
      rw [hstep, Nat.pow_add]
      calc v.toNat * 2 ^ bits + (digit x).toNat < v.toNat * 2 ^ bits + 2 ^ bits := by omega
        _ = (v.toNat + 1) * 2 ^ bits := by ring
        _ ≤ 2 ^ k * 2 ^ bits := Nat.mul_le_mul_right _ hv
    have hlength : k + bits * (x :: xs).length = k + bits + bits * xs.length := by
      rw [List.length_cons]
      ring
    obtain ⟨heq, hlt⟩ := ih (fun y hy => hdigits y (List.mem_cons_of_mem _ hy)) hnext (by omega)
    rw [List.foldl_cons, List.foldl_cons, hlength]
    exact ⟨by rw [heq, hstep], hlt⟩

theorem toNat_and_mask {v mask : UInt32} (bits : Nat) (hmask : mask.toNat = 2 ^ bits - 1) :
    (v &&& mask).toNat = v.toNat % 2 ^ bits := by
  rw [UInt32.toNat_and, hmask, Nat.and_two_pow_sub_one_eq_mod]

/-- The shifts of the encoders are the arithmetic of `encodeGroup`. -/
theorem encodeShifted_eq {group : ByteString} (h : group.length ≤ 3) : encodeShifted group = encodeGroup group := by
  have hbytes : ∀ b ∈ group, b.toUInt32.toNat < 2 ^ 8 := fun b _ => b.toNat_lt
  obtain ⟨hfold, hlt⟩ := toNat_foldl_shiftIn 8 (by norm_num) UInt8.toUInt32 group hbytes (v := 0) (k := 0)
    (by decide) (by omega)
  simp only [Nat.zero_add] at hlt
  have hpad : 8 * group.length + (3 - group.length) * 8 = 24 := by omega
  have hroom : (group.foldl (fun v b => shiftIn 8 v b.toUInt32) 0).toNat * 2 ^ ((3 - group.length) * 8) < 2 ^ 24 := by
    rw [← hpad, Nat.pow_add]
    exact Nat.mul_lt_mul_of_pos_right hlt (Nat.two_pow_pos _)
  have hvalue := toNat_shiftLeft_of_lt ((3 - group.length) * 8) (by omega) (hroom.trans (by norm_num))
  have hpow : 256 ^ (3 - group.length) = 2 ^ ((3 - group.length) * 8) := by
    rw [Nat.mul_comm, Nat.pow_mul]
  have hnumber : (group.foldl (fun v b => shiftIn 8 v b.toUInt32) 0).toNat =
      group.foldl (fun v b => v * 256 + b.toNat) 0 := hfold
  unfold encodeShifted encodeGroup
  refine List.map_congr_left fun j hj => ?_
  have hj4 := List.mem_range.mp hj
  split
  · congr 1
    rw [toNat_and_mask 6 rfl, toNat_shiftRight (by omega), hvalue, hnumber, hpow]
    congr 2
    interval_cases j <;> norm_num
  · rfl

/-- The shifts of the decoders are the arithmetic of `decodeGroup`. -/
theorem decodeShifted_eq {group : ByteString} (h : group.length ≤ 4) : decodeShifted group = decodeGroup group := by
  have hcount : (group.filterMap base64Index).length ≤ 4 := (List.length_filterMap_le _ _).trans h
  have hdigit : ∀ d ∈ group.filterMap base64Index, (UInt32.ofNat d).toNat = d ∧ d < 2 ^ 6 := by
    intro d hd
    obtain ⟨c, -, hc⟩ := List.mem_filterMap.mp hd
    rw [base64Index] at hc
    split_ifs at hc with hmem
    have hlt : d < 64 := by
      obtain rfl := Option.some.inj hc
      exact List.idxOf_lt_length_of_mem hmem
    exact ⟨UInt32.toNat_ofNat_of_lt' (by simp [UInt32.size]; omega), hlt⟩
  have hdigits : ∀ d ∈ group.filterMap base64Index, (UInt32.ofNat d).toNat < 2 ^ 6 := fun d hd => by
    rw [(hdigit d hd).1]
    exact (hdigit d hd).2
  unfold decodeShifted decodeGroup
  generalize group.filterMap base64Index = digits at hcount hdigit hdigits
  obtain ⟨hfold, hlt⟩ := toNat_foldl_shiftIn 6 (by norm_num) UInt32.ofNat digits hdigits (v := 0) (k := 0)
    (by decide) (by omega)
  simp only [Nat.zero_add] at hlt
  have hpad : 6 * digits.length + (4 - digits.length) * 6 = 24 := by omega
  have hroom : (digits.foldl (fun v d => shiftIn 6 v (UInt32.ofNat d)) 0).toNat * 2 ^ ((4 - digits.length) * 6) < 2 ^ 24 := by
    rw [← hpad, Nat.pow_add]
    exact Nat.mul_lt_mul_of_pos_right hlt (Nat.two_pow_pos _)
  have hvalue := toNat_shiftLeft_of_lt ((4 - digits.length) * 6) (by omega) (hroom.trans (by norm_num))
  have hpow : 64 ^ (4 - digits.length) = 2 ^ ((4 - digits.length) * 6) := by
    rw [Nat.mul_comm, Nat.pow_mul]
  have hnumber : (digits.foldl (fun v d => shiftIn 6 v (UInt32.ofNat d)) 0).toNat =
      digits.foldl (fun v d => v * 64 + d) 0 := by
    rw [hfold]
    exact List.foldl_ext _ _ _ fun v d hd => by rw [(hdigit d hd).1]; norm_num
  refine List.map_congr_left fun j hj => ?_
  have hj3 : j < 3 := by
    have := List.mem_range.mp hj
    omega
  apply UInt8.toNat_inj.mp
  rw [UInt32.toNat_toUInt8, toNat_and_mask 8 rfl, toNat_shiftRight (by omega), hvalue, hnumber, hpow,
    UInt8.toNat_ofNat']
  interval_cases j <;> norm_num

theorem length_le_of_mem_blocks {size : Nat} {s group : ByteString} (hgroup : group ∈ blocks size s) : group.length ≤ size := by
  obtain ⟨i, -, rfl⟩ := List.mem_map.mp hgroup
  exact List.length_take_le _ _

/-- Both encoders are the shifted one on every group. -/
theorem toBase64_shifted (data : ByteString) : toBase64 data = (blocks 3 data).flatMap encodeShifted := by
  rw [toBase64]
  exact List.flatMap_congr fun group hgroup => (encodeShifted_eq (length_le_of_mem_blocks hgroup)).symm

theorem fromBase64_shifted (str : ByteString) : fromBase64 str = (blocks 4 str).flatMap decodeShifted := by
  rw [fromBase64]
  exact List.flatMap_congr fun group hgroup => (decodeShifted_eq (length_le_of_mem_blocks hgroup)).symm

end Shifts

section Agreement

/-- A digit and its value are those of its lower-case form. -/
theorem hexDigit_of_isxdigit {c : UInt8} (hc : isxdigit c = true) :
    Json.hexDigit (hexDigitValue c) = Wallet.toLower c ∧ hexDigitValue c < 16 :=
  forall_byte_of_fin (P := fun c => isxdigit c = true → Json.hexDigit (hexDigitValue c) = Wallet.toLower c ∧
    hexDigitValue c < 16) (by decide +kernel) c hc

/-- Hexadecimal text of any letter case decodes, and comes back in lower case. -/
theorem exists_fromHexPairs {h : ByteString} (heven : h.length % 2 = 0) (hdigits : ∀ c ∈ h, isxdigit c = true) :
    ∃ data, fromHexPairs h = .ok data ∧ toHexString data = h.map Wallet.toLower := by
  induction h using fromHexPairs.induct with
  | case1 a b rest ha => exact absurd (hdigits a (by simp)) (by simpa using ha)
  | case2 a b rest _ hb => exact absurd (hdigits b (by simp)) (by simpa using hb)
  | case3 a b rest ha hb ih =>
    obtain ⟨data, hdata, hlower⟩ := ih (by simp at heven; omega) fun c hc => hdigits c (by simp [hc])
    obtain ⟨haLower, hav⟩ := hexDigit_of_isxdigit (hdigits a (by simp))
    obtain ⟨hbLower, hbv⟩ := hexDigit_of_isxdigit (hdigits b (by simp))
    refine ⟨UInt8.ofNat (hexDigitValue a * 16 + hexDigitValue b) :: data, ?_, ?_⟩
    · rw [fromHexPairs, if_neg ha, if_neg hb, hdata]
      rfl
    · have hbyte : (UInt8.ofNat (hexDigitValue a * 16 + hexDigitValue b)).toNat = hexDigitValue a * 16 + hexDigitValue b :=
        UInt8.toNat_ofNat_of_lt' (by simp [UInt8.size]; omega)
      have hdiv : (hexDigitValue a * 16 + hexDigitValue b) / 16 = hexDigitValue a := by omega
      have hmod : (hexDigitValue a * 16 + hexDigitValue b) % 16 = hexDigitValue b := by omega
      rw [toHexString_cons, hbyte, hdiv, hmod, haLower, hbLower, hlower, List.map_cons, List.map_cons]
  | case4 s hshort =>
    cases s with
    | nil => exact ⟨[], rfl, rfl⟩
    | cons a s =>
      cases s with
      | nil => simp at heven
      | cons b rest => exact absurd rfl (hshort a b rest)

/-- What the strict decoder of the envelope returns is what the lenient one returns. -/
theorem decodeBase64_ok {s bytes : ByteString} (hspace : ∀ c ∈ s, CInteger.isSpace c = false)
    (h : decodeBase64 s = .ok bytes) : bytes = fromBase64 s := by
  have hclean : s.filter (fun c => !CInteger.isSpace c) = s := List.filter_eq_self.mpr fun c hc => by simp [hspace c hc]
  rw [decodeBase64, hclean] at h
  split_ifs at h with hlength
  cases hgroups : (blocks 4 s).mapM decodeStrictGroup with
  | error e =>
    rw [hgroups] at h
    cases h
  | ok groups =>
    rw [hgroups] at h
    obtain rfl := Except.ok.inj h
    have hall := Throws.mapM_ok_iff.mp hgroups
    rw [fromBase64, List.flatMap_def]
    congr 1
    -- a group that the strict decoder accepts is read in the same way
    refine (List.forall₂_eq_eq_eq ▸ List.forall₂_map_left_iff.mpr (hall.imp fun group bytes hgroup => ?_) :
      (blocks 4 s).map decodeGroup = groups).symm
    rw [decodeStrictGroup] at hgroup
    split at hgroup
    · cases hgroup
    · exact Except.ok.inj hgroup

/-- The codecs invert each other and agree. -/
theorem codecs_agree (x h s : ByteString) :
    fromBase64 (toBase64 x) = x ∧ fromHexString (toHexString x) = .ok x ∧
    (h.length % 2 = 0 → (∀ c ∈ h, isxdigit c = true) →
      (hexToBase64 h).map base64ToHex = .ok (h.map Wallet.toLower)) ∧
    (toBase64 x ≠ [] → isStrictBase64 (toBase64 x) = true) ∧ encodeBase64 x = toBase64 x ∧
    ((∀ c ∈ s, CInteger.isSpace c = false) → ∀ bytes, decodeBase64 s = .ok bytes → bytes = fromBase64 s) := by
  refine ⟨fromBase64_toBase64 x, fromHexString_toHexString x, fun heven hdigits => ?_, fun hne => ?_, rfl,
    fun hspace bytes hbytes => decodeBase64_ok hspace hbytes⟩
  · obtain ⟨data, hdata, hlower⟩ := exists_fromHexPairs heven hdigits
    rw [hexToBase64, fromHexString, if_neg (by omega), hdata, ← hlower]
    simp [Except.map, base64ToHex, fromBase64_toBase64]
  · refine isStrictBase64_toBase64 fun hx => hne ?_
    rw [hx, toBase64_nil]

end Agreement

end KnishIO
