import Mathlib.Data.Nat.Digits.Lemmas
import Mathlib.Tactic

namespace Radix

/-- The number that big-endian digits denote. -/
def value (b : Nat) (ds : List Nat) : Nat := ds.foldl (fun acc d => acc * b + d) 0

@[simp] theorem value_nil (b : Nat) : value b [] = 0 := rfl

@[simp] theorem value_append_singleton (b : Nat) (ds : List Nat) (d : Nat) :
    value b (ds ++ [d]) = value b ds * b + d := by
  simp [value]

/-- One digit of a long division: the quotient so far, without leading zeros, and the remainder. -/
def divStep (b d : Nat) (s : List Nat × Nat) (digit : Nat) : List Nat × Nat :=
  let cur := s.2 * b + digit
  let q := cur / d
  (if s.1 ≠ [] ∨ q ≠ 0 then s.1 ++ [q] else s.1, cur % d)

/-- Long division of a digit list by a small number. -/
def divSmall (b d : Nat) (ds : List Nat) : List Nat × Nat := ds.foldl (divStep b d) ([], 0)

/-- The base-`d` digits of a base-`b` digit list, least significant first. -/
def convert (b d : Nat) : Nat → List Nat → List Nat
  | 0, _ => []
  | fuel + 1, ds => if ds = [] then [] else (divSmall b d ds).2 :: convert b d fuel (divSmall b d ds).1

variable {b d : Nat}

theorem value_divStep (s : List Nat × Nat) (digit : Nat) :
    value b (divStep b d s digit).1 = value b s.1 * b + (s.2 * b + digit) / d := by
  unfold divStep
  dsimp only
  split
  · rw [value_append_singleton]
  next h =>
    push Not at h
    simp [h.1, h.2]

/-- The quotient and the remainder of a long division. -/
theorem divSmall_value (hd : 0 < d) (ds : List Nat) :
    value b (divSmall b d ds).1 * d + (divSmall b d ds).2 = value b ds ∧ (divSmall b d ds).2 < d := by
  induction ds using List.reverseRecOn with
  | nil => exact ⟨by simp [divSmall], hd⟩
  | append_singleton ds digit ih =>
    have hstep : divSmall b d (ds ++ [digit]) = divStep b d (divSmall b d ds) digit := by simp [divSmall]
    rw [hstep, value_divStep, value_append_singleton]
    refine ⟨?_, Nat.mod_lt _ hd⟩
    have hcur := Nat.div_add_mod ((divSmall b d ds).2 * b + digit) d
    have hrem : (divStep b d (divSmall b d ds) digit).2 = ((divSmall b d ds).2 * b + digit) % d := rfl
    rw [hrem, ← ih.1]
    calc (value b (divSmall b d ds).1 * b + ((divSmall b d ds).2 * b + digit) / d) * d +
          ((divSmall b d ds).2 * b + digit) % d
        = value b (divSmall b d ds).1 * d * b +
          (d * (((divSmall b d ds).2 * b + digit) / d) + ((divSmall b d ds).2 * b + digit) % d) := by ring
      _ = value b (divSmall b d ds).1 * d * b + ((divSmall b d ds).2 * b + digit) := by rw [hcur]
      _ = (value b (divSmall b d ds).1 * d + (divSmall b d ds).2) * b + digit := by ring

/-- No leading zero. -/
def Reduced (b : Nat) (ds : List Nat) : Prop := ds ≠ [] → 0 < value b ds

theorem Reduced.nil : Reduced b [] := fun h => absurd rfl h

theorem reduced_divSmall (hb : 0 < b) (ds : List Nat) : Reduced b (divSmall b d ds).1 := by
  induction ds using List.reverseRecOn with
  | nil => exact Reduced.nil
  | append_singleton ds digit ih =>
    have hstep : divSmall b d (ds ++ [digit]) = divStep b d (divSmall b d ds) digit := by simp [divSmall]
    rw [hstep]
    intro hne
    rw [value_divStep]
    by_cases hnil : (divSmall b d ds).1 = []
    · have hq : ((divSmall b d ds).2 * b + digit) / d ≠ 0 := by
        intro hzero
        exact hne (by simp [divStep, hnil, hzero])
      exact Nat.add_pos_right _ (Nat.pos_of_ne_zero hq)
    · exact Nat.add_pos_left (Nat.mul_pos (ih hnil) hb) _

theorem value_divSmall (hd : 0 < d) (ds : List Nat) :
    value b (divSmall b d ds).1 = value b ds / d ∧ (divSmall b d ds).2 = value b ds % d := by
  obtain ⟨hvalue, hrem⟩ := divSmall_value (b := b) hd ds
  constructor
  · rw [← hvalue, Nat.mul_comm, Nat.mul_add_div hd, Nat.div_eq_of_lt hrem, Nat.add_zero]
  · rw [← hvalue, Nat.mul_comm, Nat.mul_add_mod, Nat.mod_eq_of_lt hrem]

/-- A division takes a bit off the value. -/
theorem value_divSmall_lt (hd : 2 ≤ d) {bits : Nat} {ds : List Nat} (h : value b ds < 2 ^ (bits + 1)) :
    value b (divSmall b d ds).1 < 2 ^ bits := by
  rw [(value_divSmall (by omega) ds).1, Nat.div_lt_iff_lt_mul (by omega)]
  calc value b ds < 2 ^ bits * 2 := by rw [← Nat.pow_succ]; exact h
    _ ≤ 2 ^ bits * d := Nat.mul_le_mul_left _ hd

/-- With fuel for every digit, the conversion is the digit expansion of the value. -/
theorem convert_eq_digits (hb : 0 < b) (hd : 2 ≤ d) (fuel : Nat) (ds : List Nat) (hds : Reduced b ds)
    (hfuel : value b ds < 2 ^ fuel) : convert b d fuel ds = Nat.digits d (value b ds) := by
  induction fuel generalizing ds with
  | zero =>
    have hzero : value b ds = 0 := by simpa using hfuel
    simp [convert, hzero]
  | succ fuel ih =>
    unfold convert
    split
    next hnil => simp [hnil]
    next hne =>
      obtain ⟨hquot, hmod⟩ := value_divSmall (b := b) (show 0 < d by omega) ds
      rw [ih _ (reduced_divSmall hb ds) (value_divSmall_lt hd hfuel), Nat.digits_def' (by omega) (hds hne), hquot, hmod]

/-- Digits below the base bound the value. -/
theorem value_lt_pow {ds : List Nat} (hds : ∀ x ∈ ds, x < b) : value b ds < b ^ ds.length := by
  induction ds using List.reverseRecOn with
  | nil => simp
  | append_singleton ds x ih =>
    have hx := hds x (by simp)
    have ih := ih fun y hy => hds y (by simp [hy])
    rw [value_append_singleton, List.length_append, List.length_singleton, Nat.pow_succ]
    calc value b ds * b + x < value b ds * b + b := by omega
      _ = (value b ds + 1) * b := by ring
      _ ≤ b ^ ds.length * b := Nat.mul_le_mul_right b ih

/-- Read from its least significant end, a digit list is Mathlib's. -/
theorem value_eq_ofDigits (ds : List Nat) : value b ds = Nat.ofDigits b ds.reverse := by
  induction ds using List.reverseRecOn with
  | nil => rfl
  | append_singleton ds x ih =>
    rw [value_append_singleton, List.reverse_append, List.reverse_singleton, List.singleton_append,
      Nat.ofDigits_cons, ih]
    ring

theorem value_reverse_digits (n : Nat) : value b (Nat.digits b n).reverse = n := by
  rw [value_eq_ofDigits, List.reverse_reverse, Nat.ofDigits_digits]

theorem value_replicate_zero_append (n : Nat) (ds : List Nat) : value b (List.replicate n 0 ++ ds) = value b ds := by
  have hzeros : List.foldl (fun acc d => acc * b + d) 0 (List.replicate n 0) = 0 := by
    induction n with
    | zero => rfl
    | succ n ih => simpa [List.replicate_succ] using ih
  simp [value, hzeros]

/-- Digit lists of one length are determined by their value. -/
theorem value_inj_of_length (hb : 1 < b) {xs ys : List Nat} (hlen : xs.length = ys.length) (hxs : ∀ x ∈ xs, x < b)
    (hys : ∀ y ∈ ys, y < b) (heq : value b xs = value b ys) : xs = ys := by
  rw [value_eq_ofDigits, value_eq_ofDigits] at heq
  have hrev := Nat.ofDigits_inj_of_len_eq hb (by simpa using hlen) (by simpa using hxs) (by simpa using hys) heq
  simpa using congrArg List.reverse hrev

/-- A number below `b ^ k` in front of a positive one is written with `k` digits. -/
theorem digits_add_pow_mul (hb : 1 < b) {k x n : Nat} (hx : x < b ^ k) (hn : 0 < n) :
    Nat.digits b (x + b ^ k * n) = Nat.digits b x ++ List.replicate (k - (Nat.digits b x).length) 0 ++ Nat.digits b n := by
  have hlength : (Nat.digits b x).length ≤ k := (Nat.digits_length_le_iff hb x).mpr hx
  rw [Nat.digits_append_zeroes_append_digits hb hn, Nat.add_sub_cancel' hlength]

end Radix
