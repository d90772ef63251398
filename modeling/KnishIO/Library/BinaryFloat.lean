import Mathlib.Data.Int.Log
import Mathlib.Data.Rat.Floor
import Mathlib.Tactic

namespace BinaryFloat

/-- Significand width, exponent bound and the exponent of the smallest positive number. -/
structure Format where
  precision : Nat
  maxExp : Nat
  minExp : Int
  deriving DecidableEq, Repr

/-- IEEE binary64, the `double` of every supported platform. -/
def double : Format := ⟨53, 1024, -1074⟩

/-- The 80-bit extended format, the `long double` of x86-64. -/
def extended : Format := ⟨64, 16384, -16445⟩

/-- A number is the rational it denotes, so the two zeros are one value; results are rounded to nearest, ties to
even. -/
inductive Value where
  | nan
  | inf (negative : Bool)
  | finite (q : ℚ)
  deriving DecidableEq

def roundHalfEven (x : ℚ) : Int :=
  let f := ⌊x⌋
  if x - f < 1 / 2 then f
  else if 1 / 2 < x - f then f + 1
  else if f % 2 = 0 then f else f + 1

/-- The exponent of the last significand bit at a number's magnitude. -/
def ulpExp (F : Format) (q : ℚ) : Int := max (Int.log 2 |q| - (F.precision - 1)) F.minExp

/-- The number rounded to the significand width, before the overflow test. -/
def roundSignificand (F : Format) (q : ℚ) : ℚ := roundHalfEven (q / 2 ^ ulpExp F q) * 2 ^ ulpExp F q

def round (F : Format) (q : ℚ) : Value :=
  if 2 ^ F.maxExp ≤ |roundSignificand F q| then .inf (q < 0) else .finite (roundSignificand F q)

def add (F : Format) : Value → Value → Value
  | .nan, _ => .nan
  | _, .nan => .nan
  | .inf a, .inf b => if a = b then .inf a else .nan
  | .inf a, .finite _ => .inf a
  | .finite _, .inf b => .inf b
  | .finite q, .finite r => round F (q + r)

/-- Division; a zero divisor counts as positive. -/
def div (F : Format) : Value → Value → Value
  | .nan, _ => .nan
  | _, .nan => .nan
  | .inf _, .inf _ => .nan
  | .inf a, .finite r => .inf (a != decide (r < 0))
  | .finite _, .inf _ => .finite 0
  | .finite q, .finite r => if r = 0 then (if q = 0 then .nan else .inf (q < 0)) else round F (q / r)

/-- `std::ceil`. -/
def ceil : Value → Value
  | .finite q => .finite ⌈q⌉
  | v => v

/-- `v != 0`; a NaN differs from every number. -/
def isNonzero : Value → Bool
  | .finite q => q ≠ 0
  | _ => true

/-- `v < 0`. -/
def isNegative : Value → Bool
  | .nan => false
  | .inf negative => negative
  | .finite q => q < 0

/-- `std::fabs(v) < w` for a finite `w`. -/
def absLt (v : Value) (w : ℚ) : Bool :=
  match v with
  | .finite q => |q| < w
  | _ => false

section Exactness

variable {F : Format}

@[simp] theorem roundHalfEven_intCast (k : ℤ) : roundHalfEven (k : ℚ) = k := by
  simp [roundHalfEven]

theorem roundHalfEven_eq_floor_or (x : ℚ) : roundHalfEven x = ⌊x⌋ ∨ roundHalfEven x = ⌊x⌋ + 1 := by
  unfold roundHalfEven
  dsimp only
  split_ifs <;> simp

/-- A multiple of a power of two that lies below the significand width is left as it is. -/
theorem roundSignificand_int (hmin : F.minExp ≤ 0) {k : ℤ} (hk : |k| < 2 ^ F.precision) :
    roundSignificand F (k : ℚ) = k := by
  by_cases hzero : k = 0
  · subst hzero
    simp [roundSignificand, roundHalfEven]
  have hpos : (0 : ℚ) < |(k : ℚ)| := abs_pos.mpr (by exact_mod_cast hzero)
  have hlog : Int.log 2 |(k : ℚ)| < F.precision := by
    refine (Int.lt_zpow_iff_log_lt (by norm_num) hpos).mp ?_
    rw [zpow_natCast]
    exact_mod_cast hk
  have hexp : ulpExp F k ≤ 0 := by
    unfold ulpExp
    omega
  obtain ⟨n, hn⟩ : ∃ n : ℕ, ulpExp F (k : ℚ) = -(n : ℤ) := ⟨(-ulpExp F k).toNat, by omega⟩
  have hscaled : (k : ℚ) / 2 ^ ulpExp F k = ((k * 2 ^ n : ℤ) : ℚ) := by
    rw [hn, zpow_neg, zpow_natCast, div_inv_eq_mul]
    push_cast
    rfl
  rw [roundSignificand, hscaled, roundHalfEven_intCast, ← hscaled]
  exact div_mul_cancel₀ _ (zpow_ne_zero _ (by norm_num))

/-- Integers within the significand are represented exactly. -/
theorem round_int (hmin : F.minExp ≤ 0) (hmax : F.precision ≤ F.maxExp) {k : ℤ} (hk : |k| < 2 ^ F.precision) :
    round F (k : ℚ) = .finite k := by
  have hsmall : |(k : ℚ)| < 2 ^ F.maxExp := by
    calc |(k : ℚ)| < 2 ^ F.precision := by exact_mod_cast hk
      _ ≤ 2 ^ F.maxExp := pow_le_pow_right₀ (by norm_num) hmax
  rw [round, roundSignificand_int hmin hk, if_neg (not_le.mpr hsmall)]

theorem add_int (hmin : F.minExp ≤ 0) (hmax : F.precision ≤ F.maxExp) {a b : ℤ} (hab : |a + b| < 2 ^ F.precision) :
    add F (.finite a) (.finite b) = .finite (a + b : ℤ) := by
  rw [add, ← round_int hmin hmax hab]
  push_cast
  rfl

theorem roundHalfEven_le {x : ℚ} {n : ℤ} (h : x ≤ n) : roundHalfEven x ≤ n := by
  have hfloor : ⌊x⌋ ≤ n := by
    exact_mod_cast (Int.floor_le x).trans h
  obtain heq | hlt := hfloor.eq_or_lt
  · have hx : x = n := le_antisymm h (heq ▸ Int.floor_le x)
    rw [hx, roundHalfEven_intCast]
  · obtain h | h := roundHalfEven_eq_floor_or x <;> omega

theorem lt_roundHalfEven {x : ℚ} {n : ℤ} (h : n + 1 / 2 < x) : n < roundHalfEven x := by
  have hfloor : n ≤ ⌊x⌋ := Int.le_floor.mpr (by linarith)
  unfold roundHalfEven
  dsimp only
  obtain heq | hlt := hfloor.eq_or_lt
  · rw [← heq, if_neg (by linarith), if_pos (by linarith)]
    omega
  · split_ifs <;> omega

/-- A number with a short significand is left as it is. -/
theorem roundSignificand_scaled {m : ℤ} {e : ℤ} (hm : |m| < 2 ^ F.precision) (he : F.minExp ≤ e) :
    roundSignificand F (m * 2 ^ e) = m * 2 ^ e := by
  by_cases hzero : m = 0
  · subst hzero
    simp [roundSignificand, roundHalfEven]
  have htwo : (0 : ℚ) < 2 ^ e := zpow_pos (by norm_num) e
  have hpos : (0 : ℚ) < |(m : ℚ) * 2 ^ e| := by
    rw [abs_mul, abs_of_pos htwo]
    exact mul_pos (abs_pos.mpr (by exact_mod_cast hzero)) htwo
  have hlog : Int.log 2 |(m : ℚ) * 2 ^ e| < F.precision + e := by
    refine (Int.lt_zpow_iff_log_lt (by norm_num) hpos).mp ?_
    rw [abs_mul, abs_of_pos htwo, zpow_add₀ (by norm_num), Nat.cast_ofNat, zpow_natCast]
    exact mul_lt_mul_of_pos_right (by exact_mod_cast hm) htwo
  have hexp : ulpExp F (m * 2 ^ e) ≤ e := by
    unfold ulpExp
    omega
  obtain ⟨n, hn⟩ : ∃ n : ℕ, ulpExp F ((m : ℚ) * 2 ^ e) = e - n := ⟨(e - ulpExp F (m * 2 ^ e)).toNat, by omega⟩
  have hscaled : (m : ℚ) * 2 ^ e / 2 ^ ulpExp F (m * 2 ^ e) = ((m * 2 ^ n : ℤ) : ℚ) := by
    rw [hn, zpow_sub₀ (by norm_num), zpow_natCast]
    field_simp
    push_cast
    rfl
  rw [roundSignificand, hscaled, roundHalfEven_intCast, ← hscaled]
  exact div_mul_cancel₀ _ (zpow_ne_zero _ (by norm_num))

/-- The integers up to the first one that has a neighbour without a representation. -/
theorem round_nat (hmin : F.minExp ≤ 0) (hmax : F.precision < F.maxExp) (hp : 0 < F.precision) {k : ℕ}
    (hk : k ≤ 2 ^ F.precision) :
    round F (k : ℚ) = .finite k := by
  have hexact : roundSignificand F (k : ℚ) = k := by
    obtain rfl | hlt := hk.eq_or_lt
    · have := roundSignificand_scaled (F := F) (m := 1) (e := F.precision)
        (by rw [abs_one]; exact one_lt_pow₀ (by norm_num) (by omega)) (by omega)
      simpa using this
    · have := roundSignificand_scaled (F := F) (m := k) (e := 0)
          (by simpa using (by exact_mod_cast hlt : (k : ℤ) < 2 ^ F.precision)) hmin
      simpa using this
  have hsmall : |(k : ℚ)| < 2 ^ F.maxExp := by
    rw [abs_of_nonneg (by positivity)]
    calc (k : ℚ) ≤ 2 ^ F.precision := by exact_mod_cast hk
      _ < 2 ^ F.maxExp := pow_lt_pow_right₀ (by norm_num) hmax
  rw [round, hexact, if_neg (not_le.mpr hsmall)]

/-- Rounding the quotient of two such integers does not carry it to or across an integer. -/
theorem ceil_roundSignificand_div (hmin : F.minExp ≤ 1 - 2 * F.precision) (hp : 1 < F.precision) {a b : ℕ}
    (ha : a ≤ 2 ^ F.precision) (hb : b ≤ 2 ^ F.precision) (hpos : 0 < b) :
    ⌈roundSignificand F (a / b)⌉ = ⌈(a / b : ℚ)⌉ := by
  obtain rfl | hapos := a.eq_zero_or_pos
  · simp [roundSignificand, roundHalfEven]
  have hbq : (0 : ℚ) < b := by exact_mod_cast hpos
  have hq : (0 : ℚ) < a / b := div_pos (by exact_mod_cast hapos) hbq
  generalize ht : Int.log 2 ((a : ℚ) / b) = t
  have hlow : (2 : ℚ) ^ t ≤ a / b := ht ▸ Int.zpow_log_le_self (by norm_num) hq
  have hbelow : -(F.precision : ℤ) ≤ t := by
    rw [← ht, ← Int.zpow_le_iff_le_log (by norm_num) hq, zpow_neg, zpow_natCast, Nat.cast_ofNat, ← one_div]
    have hb' : (b : ℚ) ≤ 2 ^ F.precision := by exact_mod_cast hb
    have ha' : (1 : ℚ) ≤ a := by exact_mod_cast hapos
    gcongr
  have hexp : ulpExp F ((a : ℚ) / b) = t - (F.precision - 1) := by
    rw [ulpExp, abs_of_pos hq, ht]
    omega
  obtain heq | hlt := hlow.eq_or_lt
  · -- a power of two
    have := roundSignificand_scaled (F := F) (m := 1) (e := t) (by rw [abs_one]; exact one_lt_pow₀ (by norm_num) (by omega))
      (by omega)
    rw [← heq, show roundSignificand F ((2 : ℚ) ^ t) = 2 ^ t by simpa using this]
  have hspace : (b : ℚ) * 2 ^ t < 2 ^ F.precision := by
    calc (b : ℚ) * 2 ^ t < b * (a / b) := mul_lt_mul_of_pos_left hlt hbq
      _ = a := mul_div_cancel₀ _ hbq.ne'
      _ ≤ 2 ^ F.precision := by exact_mod_cast ha
  have htop : t ≤ F.precision - 1 := by
    have hpow : (2 : ℚ) ^ t < 2 ^ (F.precision : ℤ) := by
      rw [zpow_natCast]
      calc (2 : ℚ) ^ t ≤ b * 2 ^ t := le_mul_of_one_le_left (by positivity) (by exact_mod_cast hpos)
        _ < 2 ^ F.precision := hspace
    have := (zpow_lt_zpow_iff_right₀ (by norm_num : (1 : ℚ) < 2)).mp hpow
    omega
  obtain ⟨n, hn⟩ : ∃ n : ℕ, t - (F.precision - 1) = -(n : ℤ) := ⟨(F.precision - 1 - t).toNat, by omega⟩
  have hscale : roundSignificand F ((a : ℚ) / b) = roundHalfEven (a / b * 2 ^ n) / 2 ^ n := by
    rw [roundSignificand, hexp, hn, zpow_neg, zpow_natCast, div_inv_eq_mul, ← div_eq_mul_inv]
  generalize hk : ⌈(a : ℚ) / b⌉ = k
  obtain ⟨habove, hle⟩ := Int.ceil_eq_iff.mp hk
  have hupper : roundHalfEven ((a : ℚ) / b * 2 ^ n) ≤ k * 2 ^ n := by
    refine roundHalfEven_le ?_
    push_cast
    exact mul_le_mul_of_nonneg_right hle (by positivity)
  have hlower : (k - 1) * 2 ^ n < roundHalfEven ((a : ℚ) / b * 2 ^ n) := by
    refine lt_roundHalfEven ?_
    -- the quotient is at least one part of `b` above the integer below it, more than half a unit
    have hpart : (1 : ℚ) ≤ a - (k - 1) * b := by
      have hint : (k - 1) * (b : ℤ) < a := by
        rw [lt_div_iff₀ hbq] at habove
        exact_mod_cast habove
      exact_mod_cast (by omega : (1 : ℤ) ≤ a - (k - 1) * b)
    have hunit : (b : ℚ) < 2 * 2 ^ n := by
      have hpow : (2 : ℚ) ^ F.precision = 2 ^ t * (2 * 2 ^ n) := by
        rw [← zpow_natCast 2 n, ← zpow_natCast 2 F.precision, ← zpow_one_add₀ (by norm_num), ← zpow_add₀ (by norm_num)]
        congr 1
        omega
      rw [hpow, mul_comm (b : ℚ)] at hspace
      exact lt_of_mul_lt_mul_left hspace (by positivity)
    have hsplit : (a : ℚ) / b * 2 ^ n = (k - 1) * 2 ^ n + (a - (k - 1) * b) * (2 ^ n / b) := by
      field_simp
      ring
    have hhalf : (1 : ℚ) / 2 < 2 ^ n / b := by
      rw [div_lt_div_iff₀ (by norm_num) hbq]
      linarith
    push_cast
    rw [hsplit]
    nlinarith
  have htwo : (0 : ℚ) < 2 ^ n := by positivity
  rw [hscale, Int.ceil_eq_iff, lt_div_iff₀ htwo, div_le_iff₀ htwo]
  exact ⟨by exact_mod_cast hlower, by exact_mod_cast hupper⟩

/-- The ceiling of a quotient of two such integers is computed exactly. -/
theorem ceil_div_nat (hmin : F.minExp ≤ 1 - 2 * F.precision) (hmax : F.precision < F.maxExp) (hp : 1 < F.precision) {a b : ℕ}
    (ha : a ≤ 2 ^ F.precision) (hb : b ≤ 2 ^ F.precision) (hpos : 0 < b) :
    ceil (div F (round F a) (round F b)) = .finite ⌈(a / b : ℚ)⌉ := by
  have hceil := ceil_roundSignificand_div hmin hp ha hb hpos
  have hbq : (0 : ℚ) < b := by exact_mod_cast hpos
  have hbound : (a : ℚ) / b ≤ 2 ^ F.precision := by
    calc (a : ℚ) / b ≤ a := div_le_self (by positivity) (by exact_mod_cast hpos)
      _ ≤ 2 ^ F.precision := by exact_mod_cast ha
  have hsmall : |roundSignificand F ((a : ℚ) / b)| < 2 ^ F.maxExp := by
    obtain ⟨habove, hle⟩ := Int.ceil_eq_iff.mp hceil
    have hnonneg : (0 : ℚ) ≤ (⌈(a / b : ℚ)⌉ : ℤ) := Int.cast_nonneg (Int.ceil_nonneg (by positivity))
    have htop : ((⌈(a / b : ℚ)⌉ : ℤ) : ℚ) ≤ 2 ^ F.precision := by
      exact_mod_cast Int.ceil_le.mpr (by exact_mod_cast hbound : (a : ℚ) / b ≤ ((2 ^ F.precision : ℤ) : ℚ))
    have hpow : (2 : ℚ) ^ F.precision < 2 ^ F.maxExp := pow_lt_pow_right₀ (by norm_num) hmax
    have hone : (1 : ℚ) ≤ 2 ^ F.precision := one_le_pow₀ (by norm_num)
    rw [abs_lt]
    constructor <;> linarith
  rw [round_nat (by omega) hmax (by omega) ha, round_nat (by omega) hmax (by omega) hb, div, if_neg hbq.ne', round,
    if_neg (not_le.mpr hsmall), ceil, hceil]

end Exactness

end BinaryFloat
