import KnishIO.Molecule.Build
import KnishIO.Molecule.Normalize

open ByteString

namespace KnishIO

namespace Molecule

/-- The running total of the symbols. -/
def sumSymbols : Int → List Int → Throws Int
  | total, [] => .ok total
  | total, c :: cs => do
    let total ← signed 32 (total + c)
    sumSymbols total cs

/-- `normalize` with the `int` it counts in. The passes only move the total towards zero. -/
def normalizeInt (mappedHashArray : List Int) : Throws (List Int) :=
  (sumSymbols 0 mappedHashArray).map fun total => normalizeLoop (total < 0) total.natAbs total mappedHashArray

/-- Every running total fits the `int`. -/
def TotalsFit (cs : List Int) : Prop := ∀ i ≤ cs.length, -2 ^ 31 ≤ (cs.take i).sum ∧ (cs.take i).sum < 2 ^ 31

theorem sumSymbols_ok (total : Int) (cs : List Int)
    (h : ∀ i ≤ cs.length, -2 ^ 31 ≤ total + (cs.take i).sum ∧ total + (cs.take i).sum < 2 ^ 31) :
    sumSymbols total cs = .ok (total + cs.sum) := by
  induction cs generalizing total with
  | nil => simp [sumSymbols]
  | cons c cs ih =>
    have hfirst := h 1 (by simp)
    simp only [List.take_succ_cons, List.take_zero, List.sum_cons, List.sum_nil, add_zero] at hfirst
    have hstep : signed 32 (total + c) = .ok (total + c) := by
      rw [signed]
      exact if_pos hfirst
    rw [sumSymbols, hstep]
    have hrest := ih (total + c) fun i hi => by
      have := h (i + 1) (by simpa using hi)
      simpa [add_assoc] using this
    rw [List.sum_cons, ← add_assoc]
    exact hrest

theorem normalizeInt_ok {cs : List Int} (h : TotalsFit cs) : normalizeInt cs = .ok (normalize cs) := by
  have hsum : sumSymbols 0 cs = .ok cs.sum := by
    have := sumSymbols_ok 0 cs (by simpa [TotalsFit] using h)
    simpa using this
  rw [normalizeInt, hsum]
  rfl

/-- Fewer than 2^28 symbols always fit. -/
theorem totalsFit_of_length {cs : List Int} (hrange : InRange cs) (hlength : cs.length < 2 ^ 28) : TotalsFit cs := by
  intro i hi
  have htake : InRange (cs.take i) := fun c hc => hrange c (List.mem_of_mem_take hc)
  have hbound : -8 * ((cs.take i).length : Int) ≤ (cs.take i).sum ∧ (cs.take i).sum ≤ 8 * ((cs.take i).length : Int) := by
    generalize cs.take i = ds at htake
    induction ds with
    | nil => simp
    | cons d ds ih =>
      have hd := htake d (by simp)
      have hds := ih htake.tail
      simp only [List.length_cons, List.sum_cons, Nat.cast_add, Nat.cast_one]
      omega
  have := List.length_take_le i cs
  omega

/-- The order of a symbol and what it becomes. -/
def Moved (up : Bool) (c n : Int) : Prop := if up then c ≤ n else n ≤ c

theorem Moved.refl (up : Bool) (c : Int) : Moved up c c := by cases up <;> simp [Moved]

theorem Moved.trans {up : Bool} {c n k : Int} (h : Moved up c n) (h' : Moved up n k) : Moved up c k := by
  cases up <;> simp only [Moved, Bool.false_eq_true, ↓reduceIte] at h h' ⊢ <;> omega

theorem moved_shift (up : Bool) (c : Int) : Moved up c (shift up c) := by cases up <;> simp [Moved, shift]

theorem normalizePass_moved (up : Bool) (total : Int) (cs : List Int) :
    List.Forall₂ (Moved up) cs (normalizePass up total cs).1 := by
  induction cs generalizing total with
  | nil => exact .nil
  | cons c cs ih =>
    rw [normalizePass]
    split_ifs with hmove hzero
    · exact .cons (moved_shift up c) (List.forall₂_same.mpr fun d _ => .refl up d)
    · exact .cons (moved_shift up c) (ih _)
    · exact .cons (.refl up c) (ih total)

theorem forall₂_moved_trans {up : Bool} {cs ns ks : List Int} (h : List.Forall₂ (Moved up) cs ns)
    (h' : List.Forall₂ (Moved up) ns ks) : List.Forall₂ (Moved up) cs ks := by
  induction h generalizing ks with
  | nil => exact h'
  | cons hc _ ih =>
    cases h' with
    | cons hn hrest => exact .cons (hc.trans hn) (ih hrest)

theorem normalizeLoop_moved (up : Bool) (fuel : Nat) (total : Int) (cs : List Int) :
    List.Forall₂ (Moved up) cs (normalizeLoop up fuel total cs) := by
  induction fuel generalizing total cs with
  | zero => exact List.forall₂_same.mpr fun d _ => .refl up d
  | succ fuel ih =>
    rw [normalizeLoop]
    split_ifs with hzero
    · exact List.forall₂_same.mpr fun d _ => .refl up d
    · exact forall₂_moved_trans (normalizePass_moved up total cs) (ih _ _)

/-- A loop that has reached zero does not move any more. -/
theorem normalizeLoop_zero (up : Bool) (fuel : Nat) (cs : List Int) : normalizeLoop up fuel 0 cs = cs := by
  cases fuel with
  | zero => rfl
  | succ fuel => rw [normalizeLoop, if_pos rfl]

/-- The passes end by themselves: more of them change nothing. -/
theorem normalizeLoop_fuel (up : Bool) {fuel more : Nat} {cs : List Int} (hrange : InRange cs) (hhead : Heading up cs.sum)
    (hfuel : cs.sum.natAbs ≤ fuel) (hmore : cs.sum.natAbs ≤ more) :
    normalizeLoop up fuel cs.sum cs = normalizeLoop up more cs.sum cs := by
  induction fuel generalizing more cs with
  | zero =>
    have hzero : cs.sum = 0 := by omega
    rw [hzero, normalizeLoop_zero, normalizeLoop_zero]
  | succ fuel ih =>
    by_cases hzero : cs.sum = 0
    · rw [hzero, normalizeLoop_zero, normalizeLoop_zero]
    · obtain ⟨more, rfl⟩ : ∃ k, more = k + 1 := ⟨more - 1, by omega⟩
      obtain ⟨-, hr, hsum, hh, -, hlt⟩ := normalizePass_spec up cs.sum cs hrange hhead hzero
      have hless := hlt (exists_movable hhead hzero)
      have htotal : (normalizePass up cs.sum cs).2 = (normalizePass up cs.sum cs).1.sum := by omega
      rw [normalizeLoop, normalizeLoop, if_neg hzero, if_neg hzero]
      dsimp only
      rw [htotal] at hh hless ⊢
      exact ih hr hh (by omega) (by omega)

/-- What moves in one direction moves by the difference of the sums. -/
theorem sum_movement {up : Bool} {cs ns : List Int} (h : List.Forall₂ (Moved up) cs ns) :
    (((List.zipWith (fun c n => (c - n).natAbs) cs ns).sum : Nat) : Int) = if up then ns.sum - cs.sum else cs.sum - ns.sum := by
  induction h with
  | nil => cases up <;> rfl
  | cons hc _ ih =>
    rw [List.zipWith_cons_cons, List.sum_cons, List.sum_cons, List.sum_cons, Nat.cast_add, ih]
    cases up <;> simp only [Moved, Bool.false_eq_true, ↓reduceIte] at hc ⊢ <;> omega

/-- Symbols whose running totals fit an `int` are balanced: the loop ends by itself, with the same number of
symbols, all in range and with the sum zero; they have moved against the sign of the old sum, by its magnitude in
total, and the counts of a chain add up to 16. -/
theorem normalizeInt_balances {cs : List Int} (hrange : InRange cs) (hfit : TotalsFit cs) :
    ∃ ns, normalizeInt cs = .ok ns ∧
      (∀ passes, cs.sum.natAbs ≤ passes → normalizeLoop (cs.sum < 0) passes cs.sum cs = ns) ∧
      ns.length = cs.length ∧ InRange ns ∧ ns.sum = 0 ∧
      (0 ≤ cs.sum → List.Forall₂ (fun c n => n ≤ c) cs ns) ∧ (cs.sum ≤ 0 → List.Forall₂ (fun c n => c ≤ n) cs ns) ∧
      (List.zipWith (fun c n => (c - n).natAbs) cs ns).sum = cs.sum.natAbs ∧
      ∀ n ∈ ns, 0 ≤ 8 - n ∧ 0 ≤ 8 + n ∧ (8 - n) + (8 + n) = 16 := by
  obtain ⟨hlength, hr, hsum⟩ := normalize_spec hrange
  have hhead : Heading (cs.sum < 0) cs.sum := by
    by_cases hneg : cs.sum < 0 <;> simp [Heading, hneg] <;> omega
  have hmoved : List.Forall₂ (Moved (cs.sum < 0)) cs (normalize cs) := normalizeLoop_moved _ _ _ _
  have hzero (h : cs.sum = 0) : normalize cs = cs := by
    rw [normalize, h]
    exact normalizeLoop_zero _ _ _
  refine ⟨normalize cs, normalizeInt_ok hfit, fun passes hpasses => ?_, hlength, hr, hsum, fun h => ?_, fun h => ?_, ?_,
    fun n hn => ?_⟩
  · exact normalizeLoop_fuel _ hrange hhead hpasses (le_refl _)
  · rw [decide_eq_false (not_lt.mpr h)] at hmoved
    exact hmoved.imp fun c n hcn => by simpa [Moved] using hcn
  · obtain hneg | heq := lt_or_eq_of_le h
    · rw [decide_eq_true hneg] at hmoved
      exact hmoved.imp fun c n hcn => by simpa [Moved] using hcn
    · rw [hzero heq]
      exact List.forall₂_same.mpr fun _ _ => le_refl _
  · have hmovement := sum_movement hmoved
    rw [hsum] at hmovement
    split_ifs at hmovement with hneg
    · simp only [decide_eq_true_eq] at hneg
      omega
    · simp only [decide_eq_true_eq] at hneg
      omega
  · have := hr n hn
    omega

/-- 64 symbols at the end of the range move down by eight each. -/
theorem normalizeInt_balances_eights : ∃ ns, normalizeInt (List.replicate 64 8) = .ok ns ∧ ns.sum = 0 := by
  have hrange : InRange (List.replicate 64 8) := fun c hc => by
    rw [List.eq_of_mem_replicate hc]
    decide
  obtain ⟨ns, hns, -, -, -, hsum, -⟩ := normalizeInt_balances hrange (totalsFit_of_length hrange (by simp))
  exact ⟨ns, hns, hsum⟩

/-- Nothing but fitting totals gives a result. -/
theorem totalsFit_of_sumSymbols {total sum : Int} {cs : List Int} (hstart : -2 ^ 31 ≤ total ∧ total < 2 ^ 31)
    (h : sumSymbols total cs = .ok sum) :
    ∀ i ≤ cs.length, -2 ^ 31 ≤ total + (cs.take i).sum ∧ total + (cs.take i).sum < 2 ^ 31 := by
  induction cs generalizing total with
  | nil => simpa using hstart
  | cons c cs ih =>
    rw [sumSymbols, signed] at h
    split_ifs at h with hstep
    · intro i hi
      cases i with
      | zero => simpa using hstart
      | succ i =>
        have := ih hstep h i (by simpa using hi)
        simpa [add_assoc] using this
    · cases h

/-- The sum of enough symbols overflows. -/
theorem normalizeInt_overflows : InRange (List.replicate (2 ^ 28) 8) ∧
    ¬ ∃ ns, normalizeInt (List.replicate (2 ^ 28) 8) = .ok ns := by
  generalize hn : 2 ^ 28 = n
  refine ⟨fun c hc => ?_, ?_⟩
  · rw [List.eq_of_mem_replicate hc]
    decide
  · rintro ⟨ns, hns⟩
    cases hsum : sumSymbols 0 (List.replicate n 8) with
    | error e =>
      rw [normalizeInt, hsum] at hns
      cases hns
    | ok sum =>
      have hfit := (totalsFit_of_sumSymbols (by norm_num) hsum n (by simp)).2
      rw [List.take_of_length_le (by simp), List.sum_replicate, ← hn] at hfit
      norm_num at hfit

end Molecule

end KnishIO
