import KnishIO.Utility.BaseConvert

open ByteString

namespace KnishIO

section Model

/-- The packing loop on `uint32_t` limbs. -/
structure Packing32 where
  limbs : List UInt32
  limb : UInt32
  inLimb : Nat
  head : Nat

def packDigit32 (p : Packing32) (c : UInt8) : Packing32 :=
  let limb := (p.limb <<< 4) ||| UInt32.ofNat (hexDigitValue c)
  if p.inLimb + 1 = p.head then { limbs := p.limbs ++ [limb], limb := 0, inLimb := 0, head := 8 }
  else { p with limb, inLimb := p.inLimb + 1 }

def packLimbs32 (significant : ByteString) : List UInt32 :=
  let head := if significant.length % 8 = 0 then 8 else significant.length % 8
  (significant.foldl packDigit32 { limbs := [], limb := 0, inLimb := 0, head }).limbs

/-- One limb of the long division: the quotient so far and the remainder. -/
def divLimb (baseTo : UInt32) (s : List UInt32 × UInt64) (l : UInt32) : List UInt32 × UInt64 :=
  let cur := (s.2 <<< 32) ||| l.toUInt64
  let q := (cur / baseTo.toUInt64).toUInt32
  (if s.1 ≠ [] ∨ q ≠ 0 then s.1 ++ [q] else s.1, cur % baseTo.toUInt64)

def divLimbs (baseTo : UInt32) (limbs : List UInt32) : List UInt32 × UInt64 := limbs.foldl (divLimb baseTo) ([], 0)

/-- The remainders of the division loop; `none` where limbs are left after a number of rounds. -/
def divisions (baseTo : UInt32) : Nat → List UInt32 → Option (List UInt64)
  | _, [] => some []
  | 0, _ :: _ => none
  | rounds + 1, l :: ls =>
    (divisions baseTo rounds (divLimbs baseTo (l :: ls)).1).map ((divLimbs baseTo (l :: ls)).2 :: ·)

def strlen (s : ByteString) : Nat := (s.takeWhile (· ≠ 0)).length

/-- The conversion in the source's own types. -/
def charsetBaseConvert32 (rounds : Nat) (hashHex : ByteString) (baseFrom baseTo : UInt32) (baseToSymbolTable : ByteString) :
    Option (Throws ByteString) :=
  if hashHex = [] then some (.ok [])
  else if baseTo = 0 ∨ 256 < baseTo then some (.error (.invalidArgument (ascii "Base must be between 1 and 256")))
  else if baseTo = 1 then some (.error (.invalidArgument (ascii "Base must be between 2 and 256")))
  else if baseFrom ≠ 16 then some (.error (.invalidArgument (ascii "Only base 16 input is supported")))
  else if strlen baseToSymbolTable < baseTo.toNat then
    some (.error (.invalidArgument (ascii "Symbol table too short for specified base")))
  else
    match hashHex.find? fun c => !isxdigit c with
    | some c => some (.error (.invalidArgument (ascii "Input contains non-hex character: " ++ [c])))
    | none =>
      let significant := hashHex.dropWhile (· = 48)
      if significant = [] then some (.ok [baseToSymbolTable.getD 0 0])
      else
        (divisions baseTo rounds (packLimbs32 significant)).map fun res =>
          .ok (res.map fun rem => baseToSymbolTable.getD rem.toNat 0).reverse

end Model

section Packing

/-- The limb being filled has room for the digits that it takes. -/
structure Packing32.Inv (p : Packing32) : Prop where
  room : p.inLimb < p.head
  head_le : p.head ≤ 8
  limb_lt : p.limb.toNat < 16 ^ p.inLimb

/-- The packing on numbers without a width. -/
def Packing32.toPacking (p : Packing32) : Packing where
  limbs := p.limbs.map UInt32.toNat
  limb := p.limb.toNat
  inLimb := p.inLimb
  head := p.head

theorem shifted_digit {limb : UInt32} {c : UInt8} (hlimb : limb.toNat < 2 ^ 28) (hc : isxdigit c = true) :
    ((limb <<< 4) ||| UInt32.ofNat (hexDigitValue c)).toNat = limb.toNat * 16 + hexDigitValue c := by
  have hdigit := (hexDigitValue_lt hc).1
  have hshift : (limb <<< 4).toNat = limb.toNat <<< 4 := by
    rw [UInt32.toNat_shiftLeft]
    have hwidth : (4 : UInt32).toNat % 32 = 4 := by decide
    rw [hwidth, Nat.shiftLeft_eq]
    exact Nat.mod_eq_of_lt (by omega)
  have hofNat : (UInt32.ofNat (hexDigitValue c)).toNat = hexDigitValue c := by
    rw [UInt32.toNat_ofNat']
    exact Nat.mod_eq_of_lt (by omega)
  rw [UInt32.toNat_or, hshift, hofNat, ← Nat.shiftLeft_add_eq_or_of_lt (show hexDigitValue c < 2 ^ 4 by omega), Nat.shiftLeft_eq]

theorem empty_limb : (0 : UInt32).toNat < 16 ^ 0 := by decide

theorem Packing32.Inv.step {p : Packing32} (h : p.Inv) {c : UInt8} (hc : isxdigit c = true) :
    (packDigit32 p c).Inv ∧ (packDigit32 p c).toPacking = packDigit p.toPacking c := by
  obtain ⟨hroom, hhead, hlimb⟩ := h
  have hdigit := (hexDigitValue_lt hc).1
  have hpow : 16 ^ p.inLimb ≤ 16 ^ 7 := Nat.pow_le_pow_right (by norm_num) (by omega)
  have hshifted := shifted_digit (show p.limb.toNat < 2 ^ 28 by omega) hc
  unfold packDigit32 packDigit
  simp only [toPacking]
  split
  next hfull =>
    refine ⟨⟨by norm_num, le_rfl, empty_limb⟩, ?_⟩
    simp [hshifted, hfull]
  next hopen =>
    refine ⟨⟨by dsimp only; omega, hhead, ?_⟩, ?_⟩
    · dsimp only
      rw [hshifted, Nat.pow_succ]
      omega
    · simp [hshifted, hopen]

theorem toPacking_foldl {p : Packing32} (h : p.Inv) {s : ByteString} (hs : ∀ c ∈ s, isxdigit c = true) :
    (s.foldl packDigit32 p).toPacking = s.foldl packDigit p.toPacking := by
  induction s generalizing p with
  | nil => rfl
  | cons c s ih =>
    obtain ⟨hhead, htail⟩ := List.forall_mem_cons.mp hs
    obtain ⟨hinv, hstep⟩ := h.step hhead
    rw [List.foldl_cons, ih hinv htail, hstep, List.foldl_cons]

/-- No digit is shifted out of a limb. -/
theorem packLimbs32_eq {s : ByteString} (hs : ∀ c ∈ s, isxdigit c = true) : (packLimbs32 s).map UInt32.toNat = packLimbs s := by
  have hstart : (Packing32.mk [] 0 0 (if s.length % 8 = 0 then 8 else s.length % 8)).Inv := by
    refine ⟨?_, ?_, empty_limb⟩ <;> dsimp only <;> split <;> omega
  exact congrArg Packing.limbs (toPacking_foldl hstart hs)

end Packing

section Division

variable {baseTo : UInt32}

/-- One step loses no bits: the remainder keeps its bits when it is shifted, and the quotient fits a limb. -/
def Exact (baseTo : UInt32) (s : List UInt32 × UInt64) (l : UInt32) : Prop :=
  s.2.toNat * 2 ^ 32 + l.toNat < 2 ^ 64 ∧ (s.2.toNat * 2 ^ 32 + l.toNat) / baseTo.toNat < 2 ^ 32

/-- The division on numbers without a width. -/
def toDigits (s : List UInt32 × UInt64) : List Nat × Nat := (s.1.map UInt32.toNat, s.2.toNat)

theorem exact_of_lt {s : List UInt32 × UInt64} (l : UInt32) (hrem : s.2.toNat < baseTo.toNat) : Exact baseTo s l := by
  have hl := l.toNat_lt
  have hbase := baseTo.toNat_lt
  refine ⟨by omega, (Nat.div_lt_iff_lt_mul (by omega)).mpr ?_⟩
  calc s.2.toNat * 2 ^ 32 + l.toNat < (s.2.toNat + 1) * 2 ^ 32 := by omega
    _ ≤ baseTo.toNat * 2 ^ 32 := Nat.mul_le_mul_right _ hrem
    _ = 2 ^ 32 * baseTo.toNat := Nat.mul_comm _ _

theorem divLimb_eq {s : List UInt32 × UInt64} (l : UInt32) (hrem : s.2.toNat < baseTo.toNat) :
    toDigits (divLimb baseTo s l) = Radix.divStep (2 ^ 32) baseTo.toNat (toDigits s) l.toNat ∧
      (divLimb baseTo s l).2.toNat < baseTo.toNat := by
  obtain ⟨hcur, hquotient⟩ := exact_of_lt l hrem
  have hl := l.toNat_lt
  have hbase := baseTo.toNat_lt
  have hshift : (s.2 <<< 32).toNat = s.2.toNat <<< 32 := by
    have hwidth : (32 : UInt64).toNat % 64 = 32 := by decide
    have hlt : s.2.toNat * 2 ^ 32 < 2 ^ 64 := lt_of_le_of_lt (Nat.le_add_right _ _) hcur
    rw [UInt64.toNat_shiftLeft, hwidth, Nat.shiftLeft_eq, Nat.mod_eq_of_lt hlt]
  have hjoined : ((s.2 <<< 32) ||| l.toUInt64).toNat = s.2.toNat * 2 ^ 32 + l.toNat := by
    rw [UInt64.toNat_or, hshift, UInt32.toNat_toUInt64, ← Nat.shiftLeft_add_eq_or_of_lt hl, Nat.shiftLeft_eq]
  have hq : (((s.2 <<< 32) ||| l.toUInt64) / baseTo.toUInt64).toUInt32.toNat =
      (s.2.toNat * 2 ^ 32 + l.toNat) / baseTo.toNat := by
    rw [UInt64.toNat_toUInt32, UInt64.toNat_div, hjoined, UInt32.toNat_toUInt64]
    exact Nat.mod_eq_of_lt hquotient
  have hmod : (((s.2 <<< 32) ||| l.toUInt64) % baseTo.toUInt64).toNat = (s.2.toNat * 2 ^ 32 + l.toNat) % baseTo.toNat := by
    rw [UInt64.toNat_mod, hjoined, UInt32.toNat_toUInt64]
  have hzero : (((s.2 <<< 32) ||| l.toUInt64) / baseTo.toUInt64).toUInt32 ≠ 0 ↔
      (s.2.toNat * 2 ^ 32 + l.toNat) / baseTo.toNat ≠ 0 := by
    rw [← hq, Ne, Ne, ← UInt32.toNat_inj]
    rfl
  constructor
  · unfold divLimb Radix.divStep toDigits
    dsimp only
    rw [hmod]
    refine Prod.ext ?_ rfl
    have hempty : s.1 ≠ [] ↔ s.1.map UInt32.toNat ≠ [] := not_congr List.map_eq_nil_iff.symm
    refine (apply_ite (List.map UInt32.toNat) _ _ _).trans (if_congr (or_congr hempty hzero) ?_ rfl)
    rw [List.map_append, List.map_singleton, hq]
  · exact (congrArg (· < baseTo.toNat) hmod).mpr (Nat.mod_lt _ (by omega))

theorem divLimbs_eq (hbase : 0 < baseTo.toNat) (limbs : List UInt32) :
    toDigits (divLimbs baseTo limbs) = Radix.divSmall (2 ^ 32) baseTo.toNat (limbs.map UInt32.toNat) ∧
      (divLimbs baseTo limbs).2.toNat < baseTo.toNat := by
  induction limbs using List.reverseRecOn with
  | nil => exact ⟨rfl, hbase⟩
  | append_singleton limbs l ih =>
    obtain ⟨hsame, hrem⟩ := ih
    have hstep : divLimbs baseTo (limbs ++ [l]) = divLimb baseTo (divLimbs baseTo limbs) l := by simp [divLimbs]
    obtain ⟨hdigits, hlt⟩ := divLimb_eq l hrem
    rw [hstep, hdigits, hsame]
    exact ⟨by simp [Radix.divSmall], hlt⟩

/-- The loop ends, and its remainders are those of the division without a width. -/
theorem divisions_eq (hbase : 2 ≤ baseTo.toNat) (rounds : Nat) (limbs : List UInt32)
    (hreduced : Radix.Reduced (2 ^ 32) (limbs.map UInt32.toNat))
    (hrounds : Radix.value (2 ^ 32) (limbs.map UInt32.toNat) < 2 ^ rounds) :
    ∃ rems, divisions baseTo rounds limbs = some rems ∧
      rems.map UInt64.toNat = Radix.convert (2 ^ 32) baseTo.toNat rounds (limbs.map UInt32.toNat) := by
  induction rounds generalizing limbs with
  | zero =>
    cases limbs with
    | nil => exact ⟨[], rfl, rfl⟩
    | cons l ls =>
      have hpos := hreduced (List.cons_ne_nil _ _)
      rw [Nat.pow_zero, Nat.lt_one_iff] at hrounds
      exact absurd hrounds hpos.ne'
  | succ rounds ih =>
    cases limbs with
    | nil => exact ⟨[], rfl, rfl⟩
    | cons l ls =>
      obtain ⟨hsame, -⟩ := divLimbs_eq (show 0 < baseTo.toNat by omega) (l :: ls)
      have hquotient : (divLimbs baseTo (l :: ls)).1.map UInt32.toNat =
          (Radix.divSmall (2 ^ 32) baseTo.toNat ((l :: ls).map UInt32.toNat)).1 := congrArg Prod.fst hsame
      have hrem : (divLimbs baseTo (l :: ls)).2.toNat =
          (Radix.divSmall (2 ^ 32) baseTo.toNat ((l :: ls).map UInt32.toNat)).2 := congrArg Prod.snd hsame
      obtain ⟨rems, hrems, hvalues⟩ := ih (divLimbs baseTo (l :: ls)).1
        (by rw [hquotient]; exact Radix.reduced_divSmall (by norm_num) _)
        (by rw [hquotient]; exact Radix.value_divSmall_lt hbase hrounds)
      refine ⟨(divLimbs baseTo (l :: ls)).2 :: rems, by rw [divisions, hrems]; rfl, ?_⟩
      rw [List.map_cons, hvalues, hquotient, hrem, Radix.convert, if_neg (by simp)]

end Division

section Conversion

/-- The symbols of a number. -/
def symbolsOf (table : ByteString) (base n : Nat) : ByteString :=
  (if n = 0 then [0] else (Nat.digits base n).reverse).map fun d => table.getD d 0

theorem charsetBaseConvert32_eq {hashHex table : ByteString} {baseTo : UInt32} (hne : hashHex ≠ [])
    (hhex : ∀ c ∈ hashHex, isxdigit c = true) (hlow : 2 ≤ baseTo.toNat) (hhigh : baseTo.toNat ≤ 256)
    (htable : baseTo.toNat ≤ strlen table) {rounds : Nat} (hrounds : 4 * hashHex.length ≤ rounds) :
    charsetBaseConvert32 rounds hashHex 16 baseTo table = some (.ok (symbolsOf table baseTo.toNat (hexNumber hashHex))) := by
  have hfind : hashHex.find? (fun c => !isxdigit c) = none := by
    rw [List.find?_eq_none]
    simpa using hhex
  have hzero : ¬ (baseTo = 0 ∨ 256 < baseTo) := by
    rintro (rfl | hlarge)
    · exact absurd hlow (by decide)
    · have hlt := UInt32.lt_iff_toNat_lt.mp hlarge
      have hvalue : (256 : UInt32).toNat = 256 := by decide
      omega
  have hone : baseTo ≠ 1 := by
    rintro rfl
    exact absurd hlow (by decide)
  unfold charsetBaseConvert32
  rw [if_neg hne, if_neg hzero, if_neg hone, if_neg (by simp), if_neg (by omega), hfind]
  dsimp only
  have hdrop := hexNumber_dropWhile_zero hashHex
  cases hsig : hashHex.dropWhile (· = 48) with
  | nil =>
    rw [hsig] at hdrop
    have hnumber : hexNumber hashHex = 0 := by simpa [hexNumber] using hdrop.symm
    simp [symbolsOf, hnumber]
  | cons c rest =>
    obtain ⟨hdigits, hnumber, hpos, hlt⟩ := hexNumber_significant hhex hsig
    have hvalue : Radix.value (2 ^ 32) ((packLimbs32 (c :: rest)).map UInt32.toNat) = hexNumber hashHex := by
      rw [packLimbs32_eq hdigits, value_packLimbs, hnumber]
    have hshort : (c :: rest).length ≤ hashHex.length := by
      rw [← hsig]
      exact (List.dropWhile_sublist _).length_le
    have hbits : Radix.value (2 ^ 32) ((packLimbs32 (c :: rest)).map UInt32.toNat) < 2 ^ rounds := by
      rw [hvalue]
      exact hlt.trans_le (Nat.pow_le_pow_right (by norm_num) (by omega))
    have hreduced : Radix.Reduced (2 ^ 32) ((packLimbs32 (c :: rest)).map UInt32.toNat) := fun _ => by
      rwa [hvalue]
    obtain ⟨rems, hrems, hremainders⟩ := divisions_eq hlow rounds (packLimbs32 (c :: rest)) hreduced hbits
    rw [Radix.convert_eq_digits (by norm_num) hlow rounds _ hreduced hbits, hvalue] at hremainders
    rw [if_neg (by simp), hrems, Option.map_some, symbolsOf, if_neg (by omega), ← hremainders, List.map_reverse, List.map_map]
    rfl

/-- The conversion ends without an exception and writes the digits of the number, no intermediate value overflows,
and no quotient is truncated. -/
theorem charsetBaseConvert_exact {hashHex table : ByteString} {baseTo : UInt32} (hne : hashHex ≠ [])
    (hhex : ∀ c ∈ hashHex, isxdigit c = true) (hlow : 2 ≤ baseTo.toNat) (hhigh : baseTo.toNat ≤ 256)
    (htable : baseTo.toNat ≤ strlen table) :
    (∃ rounds, ∀ more ≥ rounds, charsetBaseConvert32 more hashHex 16 baseTo table =
      some (.ok (symbolsOf table baseTo.toNat (hexNumber hashHex)))) ∧
    charsetBaseConvert hashHex 16 baseTo.toNat table = .ok (symbolsOf table baseTo.toNat (hexNumber hashHex)) ∧
    ∀ round front l back,
      (fun limbs => (divLimbs baseTo limbs).1)^[round] (packLimbs32 (hashHex.dropWhile (· = 48))) = front ++ l :: back →
        Exact baseTo (divLimbs baseTo front) l := by
  have hlength : strlen table ≤ table.length := (List.takeWhile_sublist _).length_le
  refine ⟨⟨_, fun more hmore => charsetBaseConvert32_eq hne hhex hlow hhigh htable hmore⟩,
    charsetBaseConvert_eq hne hhex hlow (htable.trans hlength) hhigh, fun round front l back _ => ?_⟩
  exact exact_of_lt l (divLimbs_eq (by omega) front).2

theorem charsetBaseConvert_exact_base17 :
    charsetBaseConvert (ascii "00fF") 16 17 (ascii "0123456789abcdefg") =
      .ok (symbolsOf (ascii "0123456789abcdefg") 17 (hexNumber (ascii "00fF"))) :=
  (charsetBaseConvert_exact (by decide) (List.all_eq_true.mp (by decide)) (show 2 ≤ (17 : UInt32).toNat by decide)
    (by decide) (by decide)).2.1

end Conversion

end KnishIO
