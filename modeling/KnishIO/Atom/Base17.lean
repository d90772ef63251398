import KnishIO.Atom

open ByteString

namespace KnishIO

namespace Atom

/-- The base-17 form of a digest, padded with zeros to 64 symbols. -/
def base17 (digest : ByteString) : ByteString :=
  padLeft 64 48 ((if hexNumber (toHexString digest) = 0 then [0]
    else (Nat.digits 17 (hexNumber (toHexString digest))).reverse).map fun d => base17Symbols.getD d 0)

theorem base17Symbol {d : Nat} (hd : d < 17) :
    WalletCrypto.isBase17 (base17Symbols.getD d 0) = true ∧ hexDigitValue (base17Symbols.getD d 0) = d := by
  have hall : ∀ k : Fin 17, WalletCrypto.isBase17 (base17Symbols.getD k.val 0) = true ∧
      hexDigitValue (base17Symbols.getD k.val 0) = k.val := by decide
  exact hall ⟨d, hd⟩

theorem isxdigit_toHexString (data : ByteString) : ∀ c ∈ toHexString data, isxdigit c = true := fun _ hc =>
  (hexDigit_hexDigitValue (isHexLower_toHexString hc)).2.2

theorem length_hashAtoms {H : Shake256} {atoms : List Atom} {digest : ByteString} (h : hashAtoms H atoms = .ok digest) :
    digest.length = 32 := by
  unfold hashAtoms at h
  split at h
  · cases hjson : version4ViewJson atoms with
    | error e => simp [hjson, Except.map] at h
    | ok json =>
      simp only [hjson, Except.map, Except.ok.injEq] at h
      simp [← h]
  · simp only [Except.ok.injEq] at h
    simp [← h]

/-- Converting a digest never fails. -/
theorem hashAtomsBase17_eq (H : Shake256) (atoms : List Atom) :
    hashAtomsBase17 H atoms = (hashAtoms H atoms).map base17 := by
  cases hdigest : hashAtoms H atoms with
  | error e => simp [hashAtomsBase17, hashAtomsHex, hdigest, Except.map, bind, Except.bind]
  | ok digest =>
    have hne : toHexString digest ≠ [] := by
      apply List.ne_nil_of_length_pos
      rw [length_toHexString, length_hashAtoms hdigest]
      norm_num
    have hconvert := charsetBaseConvert_eq hne (isxdigit_toHexString digest) (show 2 ≤ 17 by norm_num)
      (show 17 ≤ base17Symbols.length by decide) (by norm_num)
    simp [hashAtomsBase17, hashAtomsHex, hdigest, Except.map, bind, Except.bind, hconvert, base17, pure, Except.pure]

/-- The digits a digest is written with: below 17, and few enough for 64 symbols. -/
theorem base17_digits {digest : ByteString} (hlen : digest.length = 32) :
    let digits := if hexNumber (toHexString digest) = 0 then [0]
      else (Nat.digits 17 (hexNumber (toHexString digest))).reverse
    (∀ d ∈ digits, d < 17) ∧ digits.length ≤ 64 ∧ Radix.value 17 digits = hexNumber (toHexString digest) := by
  intro digits
  by_cases hzero : hexNumber (toHexString digest) = 0
  · simp [digits, hzero, Radix.value]
  · have hdigits : digits = (Nat.digits 17 (hexNumber (toHexString digest))).reverse := if_neg hzero
    have hlt : hexNumber (toHexString digest) < 17 ^ 64 := by
      have := hexNumber_lt (isxdigit_toHexString digest)
      rw [length_toHexString, hlen] at this
      exact lt_trans this (by norm_num)
    refine ⟨fun d hd => ?_, ?_, ?_⟩
    · rw [hdigits, List.mem_reverse] at hd
      exact Nat.digits_lt_base (by norm_num) hd
    · rw [hdigits, List.length_reverse]
      exact (Nat.digits_length_le_iff (by norm_num) _).mpr hlt
    · rw [hdigits, Radix.value_reverse_digits]

theorem isBase17_zero : WalletCrypto.isBase17 48 = true := by decide

/-- The base-17 form of a digest is a signable hash. -/
theorem isSignableHash_base17 {digest : ByteString} (hlen : digest.length = 32) :
    WalletCrypto.isSignableHash (base17 digest) = true := by
  obtain ⟨hlt, hle, _⟩ := base17_digits hlen
  have hlength : (base17 digest).length = 64 := by
    rw [base17, length_padLeft, List.length_map]
    omega
  have hall : (base17 digest).all WalletCrypto.isBase17 = true := by
    refine List.all_eq_true.mpr fun c hc => ?_
    rcases mem_padLeft hc with rfl | hc
    · exact isBase17_zero
    · obtain ⟨d, hd, rfl⟩ := List.mem_map.mp hc
      exact (base17Symbol (hlt d hd)).1
  simp [WalletCrypto.isSignableHash, hlength, hall]

/-- The base-17 form denotes the same number as the hexadecimal one. -/
theorem value_base17 {digest : ByteString} (hlen : digest.length = 32) :
    Radix.value 17 ((base17 digest).map hexDigitValue) = hexNumber (toHexString digest) := by
  obtain ⟨hlt, _, hvalue⟩ := base17_digits hlen
  rw [base17, padLeft, List.map_append, List.map_replicate, show hexDigitValue 48 = 0 by decide,
    Radix.value_replicate_zero_append, List.map_map]
  have hdigits := List.map_congr_left (f := hexDigitValue ∘ fun d => base17Symbols.getD d 0) (g := id)
    fun d hd => (base17Symbol (hlt d hd)).2
  rw [hdigits, List.map_id, hvalue]

/-- Nothing of the digest is lost. -/
theorem base17_injective {a b : ByteString} (ha : a.length = 32) (hb : b.length = 32) (heq : base17 a = base17 b) :
    a = b := by
  have hnumber : hexNumber (toHexString a) = hexNumber (toHexString b) := by
    rw [← value_base17 ha, ← value_base17 hb, heq]
  have below (s : ByteString) : ∀ x ∈ (toHexString s).map hexDigitValue, x < 16 := fun x hx => by
    obtain ⟨c, hc, rfl⟩ := List.mem_map.mp hx
    exact (hexDigitValue_lt (isxdigit_toHexString _ c hc)).1
  have hdigits := Radix.value_inj_of_length (b := 16) (by norm_num) (by simp [ha, hb]) (below a) (below b) hnumber
  have restore (s : ByteString) : (toHexString s).map (Json.hexDigit ∘ hexDigitValue) = toHexString s := by
    rw [List.map_congr_left (f := Json.hexDigit ∘ hexDigitValue) (g := id)
      fun c hc => (hexDigit_hexDigitValue (isHexLower_toHexString hc)).1, List.map_id]
  have hback := congrArg (List.map Json.hexDigit) hdigits
  rw [List.map_map, List.map_map, restore, restore] at hback
  exact toHexString_injective hback

end Atom

end KnishIO
