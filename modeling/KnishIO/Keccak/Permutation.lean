import KnishIO.Keccak.Steps
import KnishIO.Library.SelfInverse

namespace KnishIO.Keccak

section Rotation

/-- The bit of the rotated lane at place `i` comes from the place `n` below, around the end. -/
theorem getLsbD_rotated (a : Lane) (n : Nat) {i : Nat} (hi : i < 64) :
    (a.rotateLeft n).getLsbD i = a.getLsbD ((i + (64 - n % 64)) % 64) := by
  rw [BitVec.getLsbD_rotateLeft]
  have hn : n % 64 < 64 := Nat.mod_lt _ (by decide)
  by_cases hwrap : i < n % 64
  · rw [show (i + (64 - n % 64)) % 64 = 64 - n % 64 + i by omega]
    simp [hwrap]
  · rw [show (i + (64 - n % 64)) % 64 = i - n % 64 by omega]
    simp [hwrap, hi]

theorem rotateLeft_xor (a b : Lane) (n : Nat) : (a ^^^ b).rotateLeft n = a.rotateLeft n ^^^ b.rotateLeft n := by
  refine BitVec.eq_of_getLsbD_eq fun i hi => ?_
  rw [BitVec.getLsbD_xor, getLsbD_rotated _ _ hi, getLsbD_rotated _ _ hi, getLsbD_rotated _ _ hi, BitVec.getLsbD_xor]

theorem rotateLeft_injective (n : Nat) : Function.Injective fun a : Lane => a.rotateLeft n := by
  intro a b h
  refine BitVec.eq_of_getLsbD_eq fun i hi => ?_
  have hbit := congrArg (fun u : Lane => u.getLsbD ((i + n % 64) % 64)) h
  simp only [getLsbD_rotated _ _ (Nat.mod_lt (i + n % 64) (show 64 > 0 by decide))] at hbit
  rwa [show ((i + n % 64) % 64 + (64 - n % 64)) % 64 = i by omega] at hbit

theorem getLsbD_rotated_iterate (a : Lane) (n : Nat) {i : Nat} (hi : i < 64) :
    ((fun u : Lane => u.rotateLeft 1)^[n] a).getLsbD i = a.getLsbD ((i + 63 * n) % 64) := by
  induction n generalizing i with
  | zero => rw [Function.iterate_zero_apply, Nat.mul_zero, Nat.add_zero, Nat.mod_eq_of_lt hi]
  | succ n ih =>
    rw [Function.iterate_succ_apply', getLsbD_rotated _ _ hi, ih (Nat.mod_lt _ (by decide))]
    congr 1
    omega

/-- Sixty-four rotations by one place lead back. -/
theorem rotateLeft_one_iterate (a : Lane) : (fun u : Lane => u.rotateLeft 1)^[64] a = a := by
  refine BitVec.eq_of_getLsbD_eq fun i hi => ?_
  rw [getLsbD_rotated_iterate _ _ hi, show (i + 63 * 64) % 64 = i by omega]

end Rotation

section Theta

theorem five_cycle_bit : ∀ a b c d e : Bool, a = (b ^^ e) → b = (c ^^ a) → c = (d ^^ b) → d = (e ^^ c) → e = (a ^^ d) →
    a = false ∧ b = false ∧ c = false ∧ d = false ∧ e = false := by decide

/-- Lanes on a cycle of five that are each the sum of their neighbours vanish. -/
theorem five_cycle_vanishes {C : Fin 5 → Lane} (h : ∀ x, C x = C (x + 1) ^^^ C (x + 4)) (x : Fin 5) : C x = 0 := by
  refine BitVec.eq_of_getLsbD_eq fun n _ => ?_
  have hbit : ∀ x, (C x).getLsbD n = ((C (x + 1)).getLsbD n ^^ (C (x + 4)).getLsbD n) := fun x => by
    rw [← BitVec.getLsbD_xor, ← h]
  obtain ⟨h0, h1, h2, h3, h4⟩ := five_cycle_bit _ _ _ _ _ (hbit 0) (hbit 1) (hbit 2) (hbit 3) (hbit 4)
  have hzero : (0 : Lane).getLsbD n = false := BitVec.getLsbD_zero
  rw [hzero]
  fin_cases x <;> assumption

/-- Parities that are their own effect vanish: six doublings of the distance lead to a recurrence without rotations. -/
theorem parity_vanishes {C : Fin 5 → Lane} (h : ∀ x, C x = C (x + 4) ^^^ (C (x + 1)).rotateLeft 1) (x : Fin 5) : C x = 0 := by
  have hsub : ∀ x : Fin 5, x - 1 = x + 4 ∧ x - 64 • 1 = x + 1 ∧ x + 64 • 1 = x + 4 := by decide
  have hdoubled := SelfInverse.doublings (· ^^^ ·) (fun u : Lane => u.rotateLeft 1) C (k := (1 : Fin 5))
    (fun a b => by rw [← BitVec.xor_assoc, BitVec.xor_self, BitVec.zero_xor]) (fun a b => rotateLeft_xor a b 1)
    (fun x => by rw [(hsub x).1]; exact h x) 6
  refine five_cycle_vanishes (fun x => ?_) x
  have hx := hdoubled x
  rw [show 2 ^ 6 = 64 by decide, rotateLeft_one_iterate, (hsub x).2.1, (hsub x).2.2] at hx
  exact hx

/-- The sum of two states, lane by lane. -/
def Lanes.add (A B : Lanes) : Lanes := fun x y => A x y ^^^ B x y

theorem xor_xor_xor_comm (a b c d : Lane) : a ^^^ b ^^^ (c ^^^ d) = a ^^^ c ^^^ (b ^^^ d) := by ac_rfl

theorem parity_add (A B : Lanes) (x : Fin 5) : (A.add B).parity x = A.parity x ^^^ B.parity x := by
  simp only [Lanes.parity, Lanes.add]
  ac_rfl

theorem thetaEffect_add (A B : Lanes) (x : Fin 5) : (A.add B).thetaEffect x = A.thetaEffect x ^^^ B.thetaEffect x := by
  simp only [Lanes.thetaEffect, parity_add, rotateLeft_xor, xor_xor_xor_comm]

/-- θ adds one effect to the five lanes of a column, so two states with the same image differ by that effect in
every lane, and its parity, five times the effect, is the effect again. -/
theorem theta_injective : Function.Injective Lanes.theta := by
  intro A B h
  have hlane : ∀ x y, A.add B x y = (A.add B).thetaEffect x := fun x y => by
    have hxy : A x y ^^^ A.thetaEffect x = B x y ^^^ B.thetaEffect x := congrFun (congrFun h x) y
    rw [thetaEffect_add]
    refine BitVec.xor_eq_zero_iff.mp ?_
    rw [Lanes.add, xor_xor_xor_comm, hxy]
    exact BitVec.xor_self
  have hparity : ∀ x, (A.add B).parity x = (A.add B).thetaEffect x := fun x => by
    rw [Lanes.parity, hlane, hlane, hlane, hlane, hlane, BitVec.xor_self, BitVec.zero_xor, BitVec.xor_self, BitVec.zero_xor]
  have hzero := parity_vanishes hparity
  funext x y
  refine BitVec.xor_eq_zero_iff.mp ?_
  have heffect : (A.add B).thetaEffect x = 0 := by rw [← hparity, hzero]
  exact (hlane x y).trans heffect

end Theta

section RhoPi

theorem rho_injective : Function.Injective Lanes.rho := by
  intro A B h
  funext x y
  exact rotateLeft_injective _ (congrFun (congrFun h x) y)

theorem pi_injective : Function.Injective Lanes.pi := by
  intro A B h
  have hplace : ∀ x y : Fin 5, y + 3 * (2 * (x + 4 * y)) = x := by decide
  funext x y
  have hxy : A (y + 3 * (2 * (x + 4 * y))) y = B (y + 3 * (2 * (x + 4 * y))) y := congrFun (congrFun h y) (2 * (x + 4 * y))
  rwa [hplace] at hxy

end RhoPi

section Chi

/-- χ undone. -/
def Lanes.unchi (A : Lanes) : Lanes := fun x y =>
  A x y ^^^ (~~~A (x + 1) y &&& (A (x + 2) y ^^^ (~~~A (x + 3) y &&& A (x + 4) y)))

theorem unchi_bit : ∀ a b c d e : Bool,
    ((a ^^ (!b && c)) ^^ (!(b ^^ (!c && d)) && ((c ^^ (!d && e)) ^^ (!(d ^^ (!e && a)) && (e ^^ (!a && b)))))) = a := by
  decide

theorem unchi_chi (A : Lanes) : A.chi.unchi = A := by
  funext x y
  have hcycle : ∀ x : Fin 5, x + 1 + 1 = x + 2 ∧ x + 1 + 2 = x + 3 ∧ x + 2 + 1 = x + 3 ∧ x + 2 + 2 = x + 4 ∧ x + 3 + 1 = x + 4 ∧
      x + 3 + 2 = x ∧ x + 4 + 1 = x ∧ x + 4 + 2 = x + 1 := by decide
  obtain ⟨h11, h12, h21, h22, h31, h32, h41, h42⟩ := hcycle x
  refine BitVec.eq_of_getLsbD_eq fun n hn => ?_
  simp only [Lanes.unchi, Lanes.chi, h11, h12, h21, h22, h31, h32, h41, h42, BitVec.getLsbD_xor, BitVec.getLsbD_and,
    BitVec.getLsbD_not, hn, decide_true, Bool.true_and]
  exact unchi_bit ..

end Chi

section Bijection

theorem iota_injective (constant : Lane) : Function.Injective fun A : Lanes => A.iota constant := by
  intro A B h
  funext x y
  have hxy := congrFun (congrFun h x) y
  simp only [Lanes.iota] at hxy
  split at hxy
  · exact (BitVec.xor_left_inj _).mp hxy
  · exact hxy

theorem round_injective (constant : Lane) : Function.Injective fun A : Lanes => A.round constant := by
  intro A B h
  have hchi := congrArg Lanes.unchi (iota_injective constant h)
  rw [unchi_chi, unchi_chi] at hchi
  exact theta_injective (rho_injective (pi_injective hchi))

theorem permute_injective : Function.Injective Lanes.permute := by
  have hfold : ∀ (constants : List Lane) (A B : Lanes),
      constants.foldl Lanes.round A = constants.foldl Lanes.round B → A = B := by
    intro constants
    induction constants with
    | nil => exact fun A B h => h
    | cons constant constants ih => exact fun A B h => round_injective constant (ih _ _ h)
  exact fun A B h => hfold roundConstants A B h

theorem statePermute_injective : Function.Injective KeccakF1600_StatePermute := by
  intro s t h
  have hlanes := congrArg lanes h
  rw [lanes_permute, lanes_permute] at hlanes
  have hsame := permute_injective hlanes
  exact ext_lanes fun x y => congrFun (congrFun hsame x) y

theorem finite_state : Finite State := by
  have hbyte : Finite UInt8 := Finite.of_injective UInt8.toFin fun a b h => UInt8.toFin_inj.mp h
  exact Finite.of_injective (fun (s : State) (p : Fin 200) => s.get p) fun s t h => ext_bytes fun i k => congrFun h _

/-- The permutation loses nothing and reaches every state. -/
theorem statePermute_bijective : Function.Bijective KeccakF1600_StatePermute :=
  haveI := finite_state
  Finite.injective_iff_bijective.mp statePermute_injective

end Bijection

end KnishIO.Keccak
