import KnishIO.Molecule.Isotope

open ByteString

namespace KnishIO

namespace Molecule

open BinaryFloat CFloat

theorem exactSum_cons_of_not {select : Atom → Bool} {atom : Atom} (h : select atom = false) (atoms : List Atom) :
    exactSum select (atom :: atoms) = exactSum select atoms := by
  simp [exactSum_cons, h]

theorem exactSum_cons_of_value {select : Atom → Bool} {atom : Atom} (h : select atom = true) {k : Int}
    (hk : decimalInt? atom.value = some k) (atoms : List Atom) :
    exactSum select (atom :: atoms) = k + exactSum select atoms := by
  simp [exactSum_cons, h, hk]

/-- Skipping an atom that is not selected keeps the bounds. -/
theorem IntegerValues.tail {select : Atom → Bool} {atom : Atom} {atoms : List Atom} (h : select atom = false)
    (hvalues : IntegerValues select (atom :: atoms)) : IntegerValues select atoms where
  integer a ha := hvalues.integer a (List.mem_cons_of_mem _ ha)
  partialSums front hfront := by
    have hbound := hvalues.partialSums (atom :: front) (List.cons_prefix_cons.mpr ⟨rfl, hfront⟩)
    rwa [exactSum_cons_of_not h] at hbound

theorem abs_exactSum_le (select : Atom → Bool) {atoms : List Atom} {bound : Int} (hbound : 0 ≤ bound)
    (h : ∀ a ∈ atoms, select a = true → ∃ k, decimalInt? a.value = some k ∧ |k| ≤ bound) :
    |exactSum select atoms| ≤ bound * atoms.length := by
  induction atoms with
  | nil => simp [exactSum_nil]
  | cons atom rest ih =>
    have hrest := ih fun a ha => h a (List.mem_cons_of_mem _ ha)
    rw [List.length_cons, Nat.cast_add, Nat.cast_one, mul_add, mul_one]
    by_cases hselect : select atom = true
    · obtain ⟨k, hk, hsmall⟩ := h atom List.mem_cons_self hselect
      rw [exactSum_cons_of_value hselect hk]
      calc |k + exactSum select rest| ≤ |k| + |exactSum select rest| := abs_add_le _ _
        _ ≤ bound * rest.length + bound := by omega
    · rw [exactSum_cons_of_not (by simpa using hselect)]
      omega

/-- Values with a common bound keep every partial sum below its multiple. -/
theorem IntegerValues.of_bounded {select : Atom → Bool} {atoms : List Atom} {bound : Int} (hbound : 0 ≤ bound)
    (h : ∀ a ∈ atoms, select a = true → ∃ k, decimalInt? a.value = some k ∧ |k| ≤ bound)
    (hlimit : bound * (atoms.length + 1) < 2 ^ 53) : IntegerValues select atoms where
  integer a ha hselect := by
    obtain ⟨k, hk, hsmall⟩ := h a ha hselect
    refine ⟨k, hk, lt_of_le_of_lt hsmall (lt_of_le_of_lt ?_ hlimit)⟩
    exact le_mul_of_one_le_right hbound (by omega)
  partialSums front hfront := by
    have hsum := abs_exactSum_le select hbound fun a ha => h a (hfront.subset ha)
    have hlength : (front.length : Int) ≤ atoms.length := by exact_mod_cast hfront.length_le
    calc |exactSum select front| ≤ bound * front.length := hsum
      _ ≤ bound * (atoms.length + 1) := mul_le_mul_of_nonneg_left (by omega) hbound
      _ < 2 ^ 53 := hlimit

section TokenSums

/-- The first atom of the token, of whatever isotope, is a V atom. -/
def leadsWithV (token : ByteString) (atoms : List Atom) : Bool :=
  match atoms.find? fun a => a.token = token with
  | some atom => isV atom
  | none => false

theorem leadsWithV_cons (token : ByteString) (atom : Atom) (atoms : List Atom) :
    leadsWithV token (atom :: atoms) = if atom.token = token then isV atom else leadsWithV token atoms := by
  unfold leadsWithV
  by_cases h : atom.token = token <;> simp [h]

theorem isVOf_of_ne {token : ByteString} {atom : Atom} (h : atom.token ≠ token) : isVOf token atom = false := by
  simp [isVOf, h]

/-- The inner loop adds the token's values without rounding. -/
theorem tokenSum_eq {token : ByteString} {atoms : List Atom} {acc : Int}
    (hinteger : ∀ a ∈ atoms, isVOf token a = true → ∃ k, decimalInt? a.value = some k ∧ |k| < 2 ^ 53)
    (hsums : ∀ front, front <+: atoms → |acc + exactSum (isVOf token) front| < 2 ^ 53) :
    tokenSum token (.finite acc) atoms = .ok (.finite (acc + exactSum (isVOf token) atoms : Int)) := by
  induction atoms generalizing acc with
  | nil => simp [tokenSum, exactSum_nil]
  | cons atom rest ih =>
    have hrest : ∀ a ∈ rest, isVOf token a = true → ∃ k, decimalInt? a.value = some k ∧ |k| < 2 ^ 53 :=
      fun a ha => hinteger a (List.mem_cons_of_mem _ ha)
    by_cases hselect : isVOf token atom = true
    · obtain ⟨k, hk, hsmall⟩ := hinteger atom List.mem_cons_self hselect
      have hguard : ¬ (!isV atom || atom.token ≠ token) = true := by
        simpa [isVOf, Classical.or_iff_not_imp_left] using hselect
      have hone : |acc + k| < 2 ^ 53 := by
        have hfront := hsums [atom] (List.cons_prefix_cons.mpr ⟨rfl, List.nil_prefix⟩)
        rwa [exactSum_cons_of_value hselect hk, exactSum_nil, add_zero] at hfront
      rw [tokenSum, if_neg hguard, strtod_decimalInt hk hsmall]
      dsimp only
      rw [add_int (F := double) (by decide) (by decide) hone, ih hrest ?_]
      · rw [exactSum_cons_of_value hselect hk, add_assoc]
      · intro front hfront
        have hbound := hsums (atom :: front) (List.cons_prefix_cons.mpr ⟨rfl, hfront⟩)
        rwa [exactSum_cons_of_value hselect hk, ← add_assoc] at hbound
    · have hskip : isVOf token atom = false := by simpa using hselect
      have hguard : (!isV atom || atom.token ≠ token) = true := by
        simpa [isVOf, Classical.or_iff_not_imp_left] using hskip
      rw [tokenSum, if_pos hguard, ih hrest ?_, exactSum_cons_of_not hskip]
      intro front hfront
      have hbound := hsums (atom :: front) (List.cons_prefix_cons.mpr ⟨rfl, hfront⟩)
      rwa [exactSum_cons_of_not hskip] at hbound

theorem tokenSum_zero {token : ByteString} {atoms : List Atom} (hvalues : IntegerValues (isVOf token) atoms) :
    tokenSum token (.finite 0) atoms = .ok (.finite (exactSum (isVOf token) atoms : Int)) := by
  have hsums : ∀ front, front <+: atoms → |0 + exactSum (isVOf token) front| < 2 ^ 53 := by
    simpa using hvalues.partialSums
  simpa using tokenSum_eq hvalues.integer hsums

/-- From an atom on, the loop accepts when every token that is new there and that a V atom leads sums
to zero; a token whose first atom is of another isotope is never summed. -/
theorem tokenSums_ok_iff {earlier atoms : List Atom}
    (hvalues : ∀ token, (∀ a ∈ earlier, a.token ≠ token) → IntegerValues (isVOf token) atoms) :
    tokenSums earlier atoms = .ok true ↔
      ∀ token, (∀ a ∈ earlier, a.token ≠ token) → leadsWithV token atoms = true →
        exactSum (isVOf token) atoms = 0 := by
  induction atoms generalizing earlier with
  | nil => simp [tokenSums, leadsWithV]
  | cons atom rest ih =>
    have hsplit : ∀ token, (∀ a ∈ earlier ++ [atom], a.token ≠ token) ↔
        (∀ a ∈ earlier, a.token ≠ token) ∧ atom.token ≠ token := by
      intro token
      simp [or_imp, forall_and]
    have hnext : ∀ token, (∀ a ∈ earlier ++ [atom], a.token ≠ token) → IntegerValues (isVOf token) rest := by
      intro token hfresh
      obtain ⟨hearlier, hne⟩ := (hsplit token).mp hfresh
      exact (hvalues token hearlier).tail (isVOf_of_ne hne)
    have hother : ∀ token, atom.token ≠ token →
        leadsWithV token (atom :: rest) = leadsWithV token rest ∧
          exactSum (isVOf token) (atom :: rest) = exactSum (isVOf token) rest :=
      fun token hne => ⟨by rw [leadsWithV_cons, if_neg hne], exactSum_cons_of_not (isVOf_of_ne hne) rest⟩
    -- What remains of the statement for the tokens that the current atom does not carry.
    have hremaining : tokenSums (earlier ++ [atom]) rest = .ok true ↔
        ∀ token, (∀ a ∈ earlier, a.token ≠ token) → atom.token ≠ token → leadsWithV token (atom :: rest) = true →
          exactSum (isVOf token) (atom :: rest) = 0 := by
      rw [ih hnext]
      constructor
      · intro h token hearlier hne hleads
        rw [(hother token hne).1] at hleads
        rw [(hother token hne).2]
        exact h token ((hsplit token).mpr ⟨hearlier, hne⟩) hleads
      · intro h token hfresh hleads
        obtain ⟨hearlier, hne⟩ := (hsplit token).mp hfresh
        rw [← (hother token hne).2]
        apply h token hearlier hne
        rwa [(hother token hne).1]
    by_cases hv : isV atom = true
    · by_cases hseen : (earlier.any fun a => a.token = atom.token) = true
      · rw [tokenSums, if_neg (by simp [hv]), if_pos hseen, hremaining]
        have hstale : ∀ token, (∀ a ∈ earlier, a.token ≠ token) → atom.token ≠ token := by
          rintro token hearlier rfl
          obtain ⟨a, ha, heq⟩ := List.any_eq_true.mp hseen
          exact hearlier a ha (by simpa using heq)
        exact ⟨fun h token hearlier => h token hearlier (hstale token hearlier),
          fun h token hearlier _ => h token hearlier⟩
      · have hfresh : ∀ a ∈ earlier, a.token ≠ atom.token := by simpa using hseen
        have hsum := tokenSum_zero (hvalues atom.token hfresh)
        rw [tokenSums, if_neg (by simp [hv]), if_neg hseen, hsum]
        have hleads : leadsWithV atom.token (atom :: rest) = true := by rw [leadsWithV_cons, if_pos rfl, hv]
        by_cases hzero : exactSum (isVOf atom.token) (atom :: rest) = 0
        · have hfalse : isNonzero (.finite (exactSum (isVOf atom.token) (atom :: rest) : Int)) = false := by
            simp [isNonzero, hzero]
          simp only [hfalse, Bool.false_eq_true, ↓reduceIte]
          rw [hremaining]
          constructor
          · intro h token hearlier hlead
            by_cases hsame : atom.token = token
            · exact hsame ▸ hzero
            · exact h token hearlier hsame hlead
          · exact fun h token hearlier _ => h token hearlier
        · have htrue : isNonzero (.finite (exactSum (isVOf atom.token) (atom :: rest) : Int)) = true := by
            simpa [isNonzero] using hzero
          simp only [htrue, ↓reduceIte, Except.ok.injEq, Bool.false_eq_true, false_iff]
          exact fun h => hzero (h atom.token hfresh hleads)
    · have hnot : isV atom = false := by simpa using hv
      rw [tokenSums, if_pos (by simp [hnot]), hremaining]
      constructor
      · intro h token hearlier hlead
        have hne : atom.token ≠ token := by
          intro hsame
          rw [leadsWithV_cons, if_pos hsame, hnot] at hlead
          cases hlead
        exact h token hearlier hne hlead
      · exact fun h token hearlier _ => h token hearlier

/-- The check accepts a V-only molecule when every token that a V atom leads is conserved. -/
theorem verifyTokenIsotopeV_ok_iff {m : Molecule} (hatoms : m.atoms ≠ []) (hhash : m.molecularHash ≠ [])
    (honly : ∀ a ∈ m.atoms, isB a = false ∧ isF a = false)
    (hvalues : ∀ token, IntegerValues (isVOf token) m.atoms) :
    verifyTokenIsotopeV m = .ok true ↔
      ∀ token, leadsWithV token m.atoms = true → exactSum (isVOf token) m.atoms = 0 := by
  have hnone : ¬ (m.atoms.any fun a => isB a || isF a) = true := by
    simpa using honly
  rw [verifyTokenIsotopeV, if_neg (not_or.mpr ⟨hatoms, hhash⟩), if_neg hnone,
    tokenSums_ok_iff fun token _ => hvalues token]
  simp

/-- The V-only check decides conservation exactly when no token hides a surplus behind a first atom of
another isotope, or when another token, led by a V atom, fails anyway. -/
theorem conserves_iff_leadsWithV {m : Molecule} (hatoms : m.atoms ≠ []) (hhash : m.molecularHash ≠ [])
    (honly : ∀ a ∈ m.atoms, isB a = false ∧ isF a = false)
    (hvalues : ∀ token, IntegerValues (isVOf token) m.atoms) :
    (verifyTokenIsotopeV m = .ok true ↔ ∀ token, exactSum (isVOf token) m.atoms = 0) ↔
      (∀ token, leadsWithV token m.atoms = false → exactSum (isVOf token) m.atoms = 0) ∨
        ∃ token, leadsWithV token m.atoms = true ∧ exactSum (isVOf token) m.atoms ≠ 0 := by
  rw [verifyTokenIsotopeV_ok_iff hatoms hhash honly hvalues]
  by_cases hled : ∀ token, leadsWithV token m.atoms = true → exactSum (isVOf token) m.atoms = 0
  · have hnone : ¬ ∃ token, leadsWithV token m.atoms = true ∧ exactSum (isVOf token) m.atoms ≠ 0 := by
      rintro ⟨token, hleads, hne⟩
      exact hne (hled token hleads)
    simp only [hnone, or_false]
    constructor
    · exact fun h token _ => h.mp (fun _ _ => hled _ ‹_›) token
    · intro h
      refine ⟨fun _ token => ?_, fun _ _ _ => hled _ ‹_›⟩
      cases hleads : leadsWithV token m.atoms with
      | true => exact hled token hleads
      | false => exact h token hleads
  · have hsome : ∃ token, leadsWithV token m.atoms = true ∧ exactSum (isVOf token) m.atoms ≠ 0 := by
      push Not at hled
      exact hled
    have hnot : ¬ ∀ token, exactSum (isVOf token) m.atoms = 0 := fun h => hled fun token _ => h token
    simp [hled, hnot, hsome]

/-- A value atom of a molecule under test. -/
def valueAtom (isotope token value : String) : Atom where
  position := ascii "0a"
  walletAddress := ascii "0b"
  isotope := ascii isotope
  token := ascii token
  value := ascii value
  metaType := ascii "walletBundle"
  metaId := ascii "0c"
  createdAt := 0

def moleculeOf (atoms : List Atom) : Molecule where
  molecularHash := ascii "0d"
  atoms := atoms
  createdAt := 0

theorem conserves_iff_leadsWithV_transfer :
    (verifyTokenIsotopeV (moleculeOf [valueAtom "V" "T" "5", valueAtom "V" "T" "-5"]) = .ok true ↔
        ∀ token, exactSum (isVOf token) [valueAtom "V" "T" "5", valueAtom "V" "T" "-5"] = 0) ↔
      (∀ token, leadsWithV token [valueAtom "V" "T" "5", valueAtom "V" "T" "-5"] = false →
          exactSum (isVOf token) [valueAtom "V" "T" "5", valueAtom "V" "T" "-5"] = 0) ∨
        ∃ token, leadsWithV token [valueAtom "V" "T" "5", valueAtom "V" "T" "-5"] = true ∧
          exactSum (isVOf token) [valueAtom "V" "T" "5", valueAtom "V" "T" "-5"] ≠ 0 := by
  apply conserves_iff_leadsWithV (m := moleculeOf [valueAtom "V" "T" "5", valueAtom "V" "T" "-5"])
  · simp [moleculeOf]
  · simp [moleculeOf, ascii]
  · decide +kernel
  · intro token
    apply IntegerValues.of_bounded (show (0 : Int) ≤ 5 by decide)
    · intro a ha _
      simp only [moleculeOf, List.mem_cons, List.not_mem_nil, or_false] at ha
      obtain rfl | rfl := ha
      · exact ⟨5, by decide, by decide⟩
      · exact ⟨-5, by decide, by decide⟩
    · simp [moleculeOf]

/-- A metadata atom of the token in front hides the surplus of the V atom behind it. -/
theorem verifyTokenIsotopeV_hidden_surplus :
    (∀ a ∈ [valueAtom "M" "T" "", valueAtom "V" "T" "5"], isB a = false ∧ isF a = false) ∧
      (∀ token, IntegerValues (isVOf token) [valueAtom "M" "T" "", valueAtom "V" "T" "5"]) ∧
      verifyTokenIsotopeV (moleculeOf [valueAtom "M" "T" "", valueAtom "V" "T" "5"]) = .ok true ∧
      ¬ ∀ token, exactSum (isVOf token) [valueAtom "M" "T" "", valueAtom "V" "T" "5"] = 0 := by
  refine ⟨by decide +kernel, fun token => ?_, by decide, fun h => ?_⟩
  · apply IntegerValues.of_bounded (show (0 : Int) ≤ 5 by decide)
    · intro a ha hselect
      simp only [List.mem_cons, List.not_mem_nil, or_false] at ha
      obtain rfl | rfl := ha
      · simp [isVOf, isV, valueAtom, ascii] at hselect
      · exact ⟨5, by decide, by decide⟩
    · simp
  · exact absurd (h (ascii "T")) (by decide)

end TokenSums

section CrossIsotope

theorem tolerance_bounds : 0 < tolerance ∧ tolerance ≤ 1 := by
  have hpos : (0 : ℚ) < |1 / 10 ^ 9| := by norm_num
  have hexp : ulpExp extended (1 / 10 ^ 9) = -93 := by
    have hlow : (-30 : ℤ) ≤ Int.log 2 |(1 / 10 ^ 9 : ℚ)| :=
      (Int.zpow_le_iff_le_log (by norm_num) hpos).mp (by norm_num [abs_of_pos])
    have hhigh : Int.log 2 |(1 / 10 ^ 9 : ℚ)| < (-29 : ℤ) :=
      (Int.lt_zpow_iff_log_lt (by norm_num) hpos).mp (by norm_num [abs_of_pos])
    have hlog : Int.log 2 |(1 / 10 ^ 9 : ℚ)| = -30 := by omega
    rw [ulpExp, hlog]
    decide
  have hfloor : (1 : ℤ) ≤ ⌊(1 / 10 ^ 9 / 2 ^ (-93 : ℤ) : ℚ)⌋ := Int.le_floor.mpr (by norm_num)
  have hfloor' : (⌊(1 / 10 ^ 9 / 2 ^ (-93 : ℤ) : ℚ)⌋ : ℚ) ≤ 1 / 10 ^ 9 / 2 ^ (-93 : ℤ) := Int.floor_le _
  have hscale : (0 : ℚ) < 2 ^ (-93 : ℤ) := by positivity
  rw [tolerance, roundSignificand, hexp]
  obtain h | h := roundHalfEven_eq_floor_or (1 / 10 ^ 9 / 2 ^ (-93 : ℤ) : ℚ) <;> rw [h] <;> push_cast
  · refine ⟨mul_pos (by exact_mod_cast hfloor) hscale, ?_⟩
    calc (⌊(1 / 10 ^ 9 / 2 ^ (-93 : ℤ) : ℚ)⌋ : ℚ) * 2 ^ (-93 : ℤ)
        ≤ (1 / 10 ^ 9 / 2 ^ (-93 : ℤ)) * 2 ^ (-93 : ℤ) := mul_le_mul_of_nonneg_right hfloor' hscale.le
      _ ≤ 1 := by norm_num
  · refine ⟨mul_pos (by exact_mod_cast (by omega : (0 : ℤ) < ⌊(1 / 10 ^ 9 / 2 ^ (-93 : ℤ) : ℚ)⌋ + 1)) hscale, ?_⟩
    calc ((⌊(1 / 10 ^ 9 / 2 ^ (-93 : ℤ) : ℚ)⌋ : ℚ) + 1) * 2 ^ (-93 : ℤ)
        ≤ (1 / 10 ^ 9 / 2 ^ (-93 : ℤ) + 1) * 2 ^ (-93 : ℤ) :=
          mul_le_mul_of_nonneg_right (by linarith only [hfloor']) hscale.le
      _ ≤ 1 := by norm_num

/-- Among integers the tolerance admits only zero. -/
theorem absLt_tolerance_int (k : Int) : absLt (.finite k) tolerance = decide (k = 0) := by
  obtain ⟨hpos, hle⟩ := tolerance_bounds
  rw [absLt, decide_eq_decide]
  constructor
  · intro h
    have hone : |(k : ℚ)| < 1 := lt_of_lt_of_le h hle
    have hint : |k| < 1 := by exact_mod_cast hone
    exact Int.abs_lt_one_iff.mp hint
  · rintro rfl
    simpa using hpos

/-- A B or F atom references a wallet bundle, and an F atom is not negative. -/
def wellShaped (atom : Atom) : Bool :=
  (!(isB atom || isF atom) || bundleReference atom) && (!isF atom || 0 ≤ (decimalInt? atom.value).getD 0)

theorem ne_nil_of_decimalInt {s : ByteString} {k : Int} (h : decimalInt? s = some k) : s ≠ [] := by
  rintro rfl
  simp [decimalInt?, CInteger.scanSign] at h

theorem isVBF_eq_false {atom : Atom} (h : isVBF atom = false) : isV atom = false ∧ isB atom = false ∧ isF atom = false := by
  simpa [isVBF, and_assoc] using h

/-- An atom of another isotope is passed over. -/
theorem crossStep_skip {atom : Atom} (h : isVBF atom = false) (s : Value × Bool) : crossStep s atom = some s := by
  obtain ⟨hv, hb, hf⟩ := isVBF_eq_false h
  simp [crossStep, hv, hb, hf]

theorem addValue_int {atom : Atom} {k acc : Int} (hk : decimalInt? atom.value = some k) (hsmall : |k| < 2 ^ 64)
    (hsum : |acc + k| < 2 ^ 64) (saw : Bool) :
    crossStep.addValue (.finite acc, saw) atom =
      if isF atom = true ∧ k < 0 then none else some (.finite (acc + k : Int), saw) := by
  have hadd : add extended (.finite acc) (.finite k) = .finite (acc + k : Int) :=
    add_int (F := extended) (by decide) (by decide) hsum
  have hnegative : (isF atom && isNegative (.finite (k : ℚ))) = decide (isF atom = true ∧ k < 0) := by
    cases isF atom <;> simp [isNegative]
  rw [crossStep.addValue, if_neg (ne_nil_of_decimalInt hk), stold_decimalInt hk hsmall]
  dsimp only
  rw [hnegative, hadd]
  simp

/-- One round over an atom that carries an integer. -/
theorem crossStep_value {atom : Atom} (h : isVBF atom = true) {k acc : Int} (hk : decimalInt? atom.value = some k)
    (hsmall : |k| < 2 ^ 64) (hsum : |acc + k| < 2 ^ 64) (saw : Bool) :
    crossStep (.finite acc, saw) atom =
      if wellShaped atom then some (.finite (acc + k : Int), saw || isB atom || isF atom) else none := by
  by_cases hcross : (isB atom || isF atom) = true
  · have hadd := addValue_int hk hsmall hsum true
    rw [crossStep, if_pos hcross, hadd, Bool.or_assoc, hcross, Bool.or_true]
    cases hreference : bundleReference atom with
    | false => simp [wellShaped, hcross, hreference]
    | true =>
      cases hf : isF atom with
      | false => simp [wellShaped, hreference, hf]
      | true =>
        have hshape : wellShaped atom = decide (0 ≤ k) := by simp [wellShaped, hreference, hf, hk]
        by_cases hnegative : k < 0
        · simp [hshape, hnegative]
        · simp [hshape, hnegative, not_lt.mp hnegative]
  · have hnone : (isB atom || isF atom) = false := by simpa using hcross
    obtain ⟨hb, hf⟩ : isB atom = false ∧ isF atom = false := by simpa using hnone
    have hv : isV atom = true := by simpa [isVBF, hb, hf] using h
    have hadd := addValue_int hk hsmall hsum saw
    rw [crossStep, if_neg hcross, if_pos hv, hadd]
    simp [wellShaped, hb, hf]

/-- The loop adds the values of the V, B and F atoms without rounding and stops at the first B or F atom
of the wrong shape. -/
theorem foldlM_crossStep {atoms : List Atom} {acc : Int}
    (hinteger : ∀ a ∈ atoms, isVBF a = true → ∃ k, decimalInt? a.value = some k ∧ |k| < 2 ^ 64)
    (hsums : ∀ front, front <+: atoms → |acc + exactSum isVBF front| < 2 ^ 64) (saw : Bool) :
    atoms.foldlM crossStep (.finite acc, saw) =
      if ∀ a ∈ atoms, isVBF a = true → wellShaped a = true then
        some (.finite (acc + exactSum isVBF atoms : Int), saw || atoms.any fun a => isB a || isF a)
      else none := by
  induction atoms generalizing acc saw with
  | nil => simp [exactSum_nil]
  | cons atom rest ih =>
    have hrest : ∀ a ∈ rest, isVBF a = true → ∃ k, decimalInt? a.value = some k ∧ |k| < 2 ^ 64 :=
      fun a ha => hinteger a (List.mem_cons_of_mem _ ha)
    rw [List.foldlM_cons]
    by_cases hselect : isVBF atom = true
    · obtain ⟨k, hk, hsmall⟩ := hinteger atom List.mem_cons_self hselect
      have hone : |acc + k| < 2 ^ 64 := by
        have hfront := hsums [atom] (List.cons_prefix_cons.mpr ⟨rfl, List.nil_prefix⟩)
        rwa [exactSum_cons_of_value hselect hk, exactSum_nil, add_zero] at hfront
      have htail : ∀ front, front <+: rest → |acc + k + exactSum isVBF front| < 2 ^ 64 := by
        intro front hfront
        have hbound := hsums (atom :: front) (List.cons_prefix_cons.mpr ⟨rfl, hfront⟩)
        rwa [exactSum_cons_of_value hselect hk, ← add_assoc] at hbound
      rw [crossStep_value hselect hk hsmall hone]
      by_cases hshape : wellShaped atom = true
      · rw [if_pos hshape]
        refine (ih hrest htail (saw || isB atom || isF atom)).trans ?_
        simp only [List.forall_mem_cons, hshape, implies_true, true_and, List.any_cons, Bool.or_assoc,
          exactSum_cons_of_value hselect hk, add_assoc]
      · simp [hshape, hselect]
    · have hskip : isVBF atom = false := by simpa using hselect
      obtain ⟨_, hb, hf⟩ := isVBF_eq_false hskip
      have htail : ∀ front, front <+: rest → |acc + exactSum isVBF front| < 2 ^ 64 := by
        intro front hfront
        have hbound := hsums (atom :: front) (List.cons_prefix_cons.mpr ⟨rfl, hfront⟩)
        rwa [exactSum_cons_of_not hskip] at hbound
      rw [crossStep_skip hskip]
      refine (ih hrest htail saw).trans ?_
      simp [exactSum_cons_of_not hskip, hskip, hb, hf]

/-- The values of all tokens add up to the combined sum. -/
theorem sum_exactSum_token {tokens : Finset ByteString} {atoms : List Atom} (h : ∀ a ∈ atoms, a.token ∈ tokens) :
    ∑ token ∈ tokens, exactSum (isVBFOf token) atoms = exactSum isVBF atoms := by
  induction atoms with
  | nil => simp [exactSum_nil]
  | cons atom rest ih =>
    have hhead : ∑ token ∈ tokens, (if isVBFOf token atom then (decimalInt? atom.value).getD 0 else 0) =
        if isVBF atom then (decimalInt? atom.value).getD 0 else 0 := by
      cases hselect : isVBF atom with
      | false => simp [isVBFOf, hselect]
      | true => simp [isVBFOf, hselect, h atom List.mem_cons_self]
    simp only [exactSum_cons, Finset.sum_add_distrib]
    rw [hhead, ih fun a ha => h a (List.mem_cons_of_mem _ ha)]

theorem exactSum_of_unused {token : ByteString} {atoms : List Atom} (h : ∀ a ∈ atoms, a.token ≠ token) :
    exactSum (isVBFOf token) atoms = 0 := by
  induction atoms with
  | nil => rfl
  | cons atom rest ih =>
    have hskip : isVBFOf token atom = false := by simp [isVBFOf, h atom List.mem_cons_self]
    rw [exactSum_cons_of_not hskip]
    exact ih fun a ha => h a (List.mem_cons_of_mem _ ha)

/-- With at most one token out of balance, a combined sum of zero conserves every token. -/
theorem exactSum_token_eq_zero {atoms : List Atom}
    (hone : ∀ t u, exactSum (isVBFOf t) atoms ≠ 0 → exactSum (isVBFOf u) atoms ≠ 0 → t = u)
    (hsum : exactSum isVBF atoms = 0) (token : ByteString) : exactSum (isVBFOf token) atoms = 0 := by
  by_contra hne
  have hused : ∃ a ∈ atoms, a.token = token := by
    by_contra hunused
    push Not at hunused
    exact hne (exactSum_of_unused hunused)
  have hsingle : ∑ t ∈ (atoms.map (·.token)).toFinset, exactSum (isVBFOf t) atoms = exactSum (isVBFOf token) atoms := by
    apply Finset.sum_eq_single_of_mem
    · simpa using hused
    · intro t _ hother
      by_contra hnonzero
      exact hother (hone t token hnonzero hne)
  rw [sum_exactSum_token fun a ha => List.mem_toFinset.mpr (List.mem_map_of_mem ha), hsum] at hsingle
  exact hne hsingle.symm

/-- The check accepts a molecule with B or F atoms when these have the right shape and the combined sum,
which `long double` holds, is zero. -/
theorem verifyTokenIsotopeV_cross_of {m : Molecule} (hcross : ∃ a ∈ m.atoms, isB a = true ∨ isF a = true)
    (hinteger : ∀ a ∈ m.atoms, isVBF a = true → ∃ k, decimalInt? a.value = some k ∧ |k| < 2 ^ 64)
    (hsums : ∀ front, front <+: m.atoms → |exactSum isVBF front| < 2 ^ 64) :
    verifyTokenIsotopeV m = .ok true ↔
      m.molecularHash ≠ [] ∧ (∀ a ∈ m.atoms, isVBF a = true → wellShaped a = true) ∧ exactSum isVBF m.atoms = 0 := by
  have hatoms : m.atoms ≠ [] := by
    obtain ⟨a, ha, _⟩ := hcross
    exact List.ne_nil_of_mem ha
  have hany : (m.atoms.any fun a => isB a || isF a) = true := by simpa using hcross
  by_cases hhash : m.molecularHash = []
  · simp [verifyTokenIsotopeV, hhash]
  · have hsums : ∀ front, front <+: m.atoms → |0 + exactSum isVBF front| < 2 ^ 64 := by
      simpa using hsums
    have hfold := foldlM_crossStep hinteger hsums false
    rw [Int.cast_zero, hany, Bool.or_true, zero_add] at hfold
    rw [verifyTokenIsotopeV, if_neg (not_or.mpr ⟨hatoms, hhash⟩), if_pos hany, verifyCrossIsotopeConservation, hfold]
    by_cases hshape : ∀ a ∈ m.atoms, isVBF a = true → wellShaped a = true
    · rw [if_pos hshape]
      simp only [Bool.not_true, Bool.false_or, absLt_tolerance_int, Except.ok.injEq, decide_eq_true_eq]
      exact ⟨fun hsum => ⟨hhash, hshape, hsum⟩, fun h => h.2.2⟩
    · rw [if_neg hshape]
      simp only [Except.ok.injEq, Bool.false_eq_true, false_iff]
      exact fun h => hshape h.2.1

theorem verifyTokenIsotopeV_cross {m : Molecule} (hcross : ∃ a ∈ m.atoms, isB a = true ∨ isF a = true)
    (hvalues : IntegerValues isVBF m.atoms) :
    verifyTokenIsotopeV m = .ok true ↔
      m.molecularHash ≠ [] ∧ (∀ a ∈ m.atoms, isVBF a = true → wellShaped a = true) ∧ exactSum isVBF m.atoms = 0 := by
  apply verifyTokenIsotopeV_cross_of hcross
  · intro a ha hselect
    obtain ⟨k, hk, hsmall⟩ := hvalues.integer a ha hselect
    exact ⟨k, hk, hsmall.trans (by norm_num)⟩
  · exact fun front hfront => (hvalues.partialSums front hfront).trans (by norm_num)

/-- Acceptance of a molecule with B or F atoms implies that every token is conserved, except where the
surplus of one token hides the deficit of another. -/
theorem cross_conserves_iff {m : Molecule} (hcross : ∃ a ∈ m.atoms, isB a = true ∨ isF a = true)
    (hvalues : IntegerValues isVBF m.atoms) :
    (verifyTokenIsotopeV m = .ok true → ∀ token, exactSum (isVBFOf token) m.atoms = 0) ↔
      m.molecularHash = [] ∨ (∃ a ∈ m.atoms, isVBF a = true ∧ wellShaped a = false) ∨ exactSum isVBF m.atoms ≠ 0 ∨
        ∀ t u, exactSum (isVBFOf t) m.atoms ≠ 0 → exactSum (isVBFOf u) m.atoms ≠ 0 → t = u := by
  rw [verifyTokenIsotopeV_cross hcross hvalues]
  constructor
  · intro h
    by_cases hhash : m.molecularHash = []
    · exact .inl hhash
    by_cases hshape : ∀ a ∈ m.atoms, isVBF a = true → wellShaped a = true
    · by_cases hsum : exactSum isVBF m.atoms = 0
      · have hzero := h ⟨hhash, hshape, hsum⟩
        exact .inr (.inr (.inr fun t _ ht => absurd (hzero t) ht))
      · exact .inr (.inr (.inl hsum))
    · push Not at hshape
      obtain ⟨a, ha, hselect, hbad⟩ := hshape
      exact .inr (.inl ⟨a, ha, hselect, by simpa using hbad⟩)
  · rintro h ⟨hhash, hshape, hsum⟩
    obtain h | ⟨a, ha, hselect, hbad⟩ | h | hone := h
    · exact absurd h hhash
    · exact absurd (hshape a ha hselect) (by simp [hbad])
    · exact absurd hsum h
    · exact exactSum_token_eq_zero hone hsum

/-- A buffer deposit of a token from its V atom to a B atom. -/
theorem cross_conserves_iff_deposit :
    (verifyTokenIsotopeV (moleculeOf [valueAtom "V" "T" "-5", valueAtom "B" "T" "5"]) = .ok true →
        ∀ token, exactSum (isVBFOf token) [valueAtom "V" "T" "-5", valueAtom "B" "T" "5"] = 0) ↔
      ascii "0d" = [] ∨
        (∃ a ∈ [valueAtom "V" "T" "-5", valueAtom "B" "T" "5"], isVBF a = true ∧ wellShaped a = false) ∨
        exactSum isVBF [valueAtom "V" "T" "-5", valueAtom "B" "T" "5"] ≠ 0 ∨
        ∀ t u, exactSum (isVBFOf t) [valueAtom "V" "T" "-5", valueAtom "B" "T" "5"] ≠ 0 →
          exactSum (isVBFOf u) [valueAtom "V" "T" "-5", valueAtom "B" "T" "5"] ≠ 0 → t = u := by
  apply cross_conserves_iff (m := moleculeOf [valueAtom "V" "T" "-5", valueAtom "B" "T" "5"])
  · exact ⟨valueAtom "B" "T" "5", by simp [moleculeOf], by decide⟩
  · apply IntegerValues.of_bounded (show (0 : Int) ≤ 5 by decide)
    · intro a ha _
      simp only [moleculeOf, List.mem_cons, List.not_mem_nil, or_false] at ha
      obtain rfl | rfl := ha
      · exact ⟨-5, by decide +kernel, by decide⟩
      · exact ⟨5, by decide, by decide⟩
    · simp [moleculeOf]

/-- Five of one token created against five of another destroyed. -/
theorem verifyTokenIsotopeV_crossed_tokens :
    IntegerValues isVBF [valueAtom "V" "T" "5", valueAtom "B" "U" "-5"] ∧
      verifyTokenIsotopeV (moleculeOf [valueAtom "V" "T" "5", valueAtom "B" "U" "-5"]) = .ok true ∧
      exactSum (isVBFOf (ascii "T")) [valueAtom "V" "T" "5", valueAtom "B" "U" "-5"] = 5 := by
  have hvalues : IntegerValues isVBF (moleculeOf [valueAtom "V" "T" "5", valueAtom "B" "U" "-5"]).atoms := by
    apply IntegerValues.of_bounded (show (0 : Int) ≤ 5 by decide)
    · intro a ha _
      simp only [moleculeOf, List.mem_cons, List.not_mem_nil, or_false] at ha
      obtain rfl | rfl := ha
      · exact ⟨5, by decide, by decide⟩
      · exact ⟨-5, by decide, by decide⟩
    · simp [moleculeOf]
  refine ⟨hvalues, ?_, by decide +kernel⟩
  apply (verifyTokenIsotopeV_cross ⟨valueAtom "B" "U" "-5", by simp [moleculeOf], by decide⟩ hvalues).mpr
  exact ⟨by decide, by decide +kernel, by decide⟩

end CrossIsotope

end Molecule

end KnishIO
