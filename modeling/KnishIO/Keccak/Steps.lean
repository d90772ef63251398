import KnishIO.Keccak.Lanes
import KnishIO.Library.Loop

namespace KnishIO.Keccak

/-- The state as the reference sees it: a lane for every pair of coordinates. -/
abbrev Lanes := Fin 5 → Fin 5 → Lane

def lanes (s : State) : Lanes := fun x y => readLane s x y

section Reference

/-- The parity of the columns. -/
def Lanes.parity (A : Lanes) (x : Fin 5) : Lane := A x 0 ^^^ A x 1 ^^^ A x 2 ^^^ A x 3 ^^^ A x 4

def Lanes.thetaEffect (A : Lanes) (x : Fin 5) : Lane := A.parity (x + 4) ^^^ (A.parity (x + 1)).rotateLeft 1

def Lanes.theta (A : Lanes) : Lanes := fun x y => A x y ^^^ A.thetaEffect x

/-- The rotation offsets, a row for every `x`. -/
def offsets : Vector (Vector Nat 5) 5 :=
  #v[#v[0, 36, 3, 41, 18], #v[1, 44, 10, 45, 2], #v[62, 6, 43, 15, 61], #v[28, 55, 25, 21, 56], #v[27, 20, 39, 8, 14]]

def Lanes.rho (A : Lanes) : Lanes := fun x y => (A x y).rotateLeft ((offsets.get x).get y)

def Lanes.pi (A : Lanes) : Lanes := fun x y => A (x + 3 * y) x

def Lanes.chi (A : Lanes) : Lanes := fun x y => A x y ^^^ (~~~A (x + 1) y &&& A (x + 2) y)

def Lanes.iota (A : Lanes) (constant : Lane) : Lanes := fun x y => if x = 0 ∧ y = 0 then A x y ^^^ constant else A x y

def Lanes.round (A : Lanes) (constant : Lane) : Lanes := A.theta.rho.pi.chi.iota constant

def roundConstants : List Lane :=
  [0x0000000000000001, 0x0000000000008082, 0x800000000000808A, 0x8000000080008000, 0x000000000000808B, 0x0000000080000001,
    0x8000000080008081, 0x8000000000008009, 0x000000000000008A, 0x0000000000000088, 0x0000000080008009, 0x000000008000000A,
    0x000000008000808B, 0x800000000000008B, 0x8000000000008089, 0x8000000000008003, 0x8000000000008002, 0x8000000000000080,
    0x000000000000800A, 0x800000008000000A, 0x8000000080008081, 0x8000000000008080, 0x0000000080000001, 0x8000000080008008]

/-- Keccak-f[1600]. -/
def Lanes.permute (A : Lanes) : Lanes := roundConstants.foldl Lanes.round A

end Reference

theorem mem_coordinates (x : Fin 5) : x ∈ coordinates := by
  fin_cases x <;> decide

theorem nodup_coordinates : coordinates.Nodup := by decide

/-- A loop over the coordinates changes what is read at every one of them. -/
theorem foldl_coordinates {β : Type} {step : State → Fin 5 → State} (read : State → Fin 5 → β) (change : Fin 5 → β → β)
    (hhere : ∀ s i, read (step s i) i = change i (read s i)) (helsewhere : ∀ s i j, j ≠ i → read (step s i) j = read s j)
    (s : State) (j : Fin 5) : read (coordinates.foldl step s) j = change j (read s j) := by
  rw [Loop.foldl_once read change hhere helsewhere nodup_coordinates, if_pos (mem_coordinates j)]

theorem rol64_eq_rotateLeft (a : Lane) {offset : Nat} (hpos : 0 < offset) (hlt : offset < 64) :
    rol64 a offset = a.rotateLeft offset := by
  refine BitVec.eq_of_getLsbD_eq fun n hn => ?_
  rw [rol64, BitVec.getLsbD_xor, BitVec.getLsbD_shiftLeft, BitVec.getLsbD_ushiftRight, BitVec.getLsbD_rotateLeft,
    Nat.mod_eq_of_lt hlt]
  by_cases hlow : n < offset
  · simp [hn, hlow]
  · have hhigh : a.getLsbD (64 - offset + n) = false := BitVec.getLsbD_of_ge _ _ (by omega)
    simp [hn, hlow, hhigh]

section Theta

theorem readLane_foldl_xorLane (s : State) (x : Fin 5) (D : Lane) (x' y' : Fin 5) :
    readLane (coordinates.foldl (fun s y => xorLane s x y D) s) x' y' =
      if x' = x then readLane s x' y' ^^^ D else readLane s x' y' := by
  by_cases hx : x' = x
  · subst hx
    rw [if_pos rfl]
    refine foldl_coordinates (fun s y => readLane s x' y) (fun _ lane => lane ^^^ D) ?_ ?_ s y'
    · exact fun s y => by simp
    · exact fun s y j hj => by simp [hj]
  · rw [if_neg hx]
    exact Loop.foldl_unchanged (fun s => readLane s x' y') (fun s y => by simp [hx]) _ s

theorem lanes_theta (s : State) : lanes (theta s) = (lanes s).theta := by
  funext x y
  let D (x : Fin 5) : Lane := (lanes s).parity (x + 4) ^^^ rol64 ((lanes s).parity (x + 1)) 1
  let column (r : State) (x : Fin 5) : State := coordinates.foldl (fun r y => xorLane r x y (D x)) r
  have hhere : ∀ r x, readLane (column r x) x y = readLane r x y ^^^ D x := fun r x => by
    simp only [column, readLane_foldl_xorLane, if_true]
  have helsewhere : ∀ r x j, j ≠ x → readLane (column r x) j y = readLane r j y := fun r x j hj => by
    simp only [column, readLane_foldl_xorLane, if_neg hj]
  have hcolumn : readLane (coordinates.foldl column s) x y = readLane s x y ^^^ D x :=
    foldl_coordinates (fun s x => readLane s x y) (fun x lane => lane ^^^ D x) hhere helsewhere s x
  have heffect : D x = (lanes s).thetaEffect x := by
    rw [Lanes.thetaEffect, ← rol64_eq_rotateLeft _ (by decide) (by decide)]
  exact hcolumn.trans (by rw [heffect]; rfl)

end Theta

section RhoPi

/-- The places that the walk reaches, from the place (1, 0). -/
def walk (t : Nat) : Fin 5 × Fin 5 := (fun p => (p.2, 2 * p.1 + 3 * p.2))^[t] (1, 0)

theorem walk_succ (t : Nat) : walk (t + 1) = ((walk t).2, 2 * (walk t).1 + 3 * (walk t).2) :=
  Function.iterate_succ_apply' ..

/-- The walk visits no place twice. -/
theorem walk_injective : ∀ i < 24, ∀ j < 24, walk (i + 1) = walk (j + 1) → i = j := by decide +kernel

/-- What the walk has done after `t` steps: the lane in hand is still the one that was found at the last place. -/
structure Walked (s : State) (t : Nat) (r : State × Fin 5 × Fin 5 × Lane) : Prop where
  place : (r.2.1, r.2.2.1) = walk t
  current : r.2.2.2 = lanes s (walk t).1 (walk t).2
  moved : ∀ j < t, lanes r.1 (walk (j + 1)).1 (walk (j + 1)).2 = rol64 (lanes s (walk j).1 (walk j).2) (rotation j)
  kept : ∀ x y, (∀ j < t, walk (j + 1) ≠ (x, y)) → lanes r.1 x y = lanes s x y

theorem walked_step {s : State} {t : Nat} {r : State × Fin 5 × Fin 5 × Lane} (ht : t < 24) (h : Walked s t r) :
    Walked s (t + 1) (rhoPiStep r t) := by
  obtain ⟨r, x, y, current⟩ := r
  obtain ⟨hplace, hcurrent, hmoved, hkept⟩ := h
  simp only at hplace hcurrent hmoved hkept
  have hnext : walk (t + 1) = (y, 2 * x + 3 * y) := by rw [walk_succ, ← hplace]
  have hfresh : ∀ j < t, walk (j + 1) ≠ walk (t + 1) := fun j hj heq => by
    have := walk_injective j (by omega) t ht heq
    omega
  refine ⟨hnext.symm, ?_, fun j hj => ?_, fun x' y' hnone => ?_⟩
  · rw [hnext]
    exact hkept y (2 * x + 3 * y) fun j hj => hnext ▸ hfresh j hj
  · simp only [rhoPiStep, lanes, readLane_writeLane]
    rcases Nat.lt_succ_iff_lt_or_eq.mp hj with hearlier | rfl
    · have hother : ¬((walk (j + 1)).1 = y ∧ (walk (j + 1)).2 = 2 * x + 3 * y) := fun hsame =>
        hfresh j hearlier (hnext ▸ Prod.ext hsame.1 hsame.2)
      rw [if_neg hother]
      exact hmoved j hearlier
    · rw [if_pos (by rw [hnext]; exact ⟨rfl, rfl⟩), hcurrent]
      rfl
  · have hother : ¬(x' = y ∧ y' = 2 * x + 3 * y) := fun hsame =>
      hnone t (by omega) (hnext.trans (Prod.ext hsame.1.symm hsame.2.symm))
    simp only [rhoPiStep, lanes, readLane_writeLane, if_neg hother]
    exact hkept x' y' fun j hj => hnone j (by omega)

theorem walked_range (s : State) : ∀ {t : Nat}, t ≤ 24 → Walked s t ((List.range t).foldl rhoPiStep (s, 1, 0, readLane s 1 0))
  | 0, _ => ⟨rfl, rfl, fun _ hj => absurd hj (by omega), fun _ _ _ => rfl⟩
  | t + 1, ht => by
    rw [List.range_succ, List.foldl_append]
    exact walked_step (by omega) (walked_range s (by omega))

/-- Every place but (0, 0) is reached by the step from the place that the reference moves there, with its offset. -/
theorem walk_reaches : ∀ x y : Fin 5, (x, y) = (0, 0) ∨
    ∃ j < 24, walk (j + 1) = (x, y) ∧ walk j = (x + 3 * y, x) ∧ rotation j = (offsets.get (x + 3 * y)).get x := by
  decide +kernel

theorem walk_ne_zero : ∀ j < 24, walk (j + 1) ≠ (0, 0) := by decide +kernel

theorem rotation_bounds : ∀ j < 24, 0 < rotation j ∧ rotation j < 64 := by decide +kernel

/-- The walk in place does what ρ and then π do to all lanes at once. -/
theorem lanes_rhoPi (s : State) : lanes (rhoPi s) = (lanes s).rho.pi := by
  funext x y
  obtain ⟨-, -, hmoved, hkept⟩ := walked_range s (t := 24) (by decide)
  rcases walk_reaches x y with hzero | ⟨j, hj, hto, hfrom, hoffset⟩
  · obtain ⟨rfl, rfl⟩ := Prod.mk.inj hzero
    have horigin := hkept 0 0 walk_ne_zero
    have hrotation : (lanes s).rho.pi 0 0 = lanes s 0 0 := by
      change (lanes s 0 0).rotateLeft 0 = lanes s 0 0
      exact BitVec.eq_of_getLsbD_eq fun n hn => by simp [hn]
    exact horigin.trans hrotation.symm
  · have hlane := hmoved j hj
    obtain ⟨hpos, hlt⟩ := rotation_bounds j hj
    rw [hto, hfrom, rol64_eq_rotateLeft _ hpos hlt, hoffset] at hlane
    exact hlane

end RhoPi

section Chi

theorem lanes_chi (s : State) : lanes (chi s) = (lanes s).chi := by
  funext x y
  refine congrFun (foldl_coordinates (fun s y x => readLane s x y)
    (fun _ plane x => plane x ^^^ (~~~plane (x + 1) &&& plane (x + 2))) (fun r y => ?_) (fun r y j hj => ?_) s y) x
  · funext x
    exact foldl_coordinates (fun s x => readLane s x y)
      (fun x _ => readLane r x y ^^^ (~~~readLane r (x + 1) y &&& readLane r (x + 2) y)) (fun s x => by simp)
      (fun s x j hj => by simp [hj]) r x
  · exact Loop.foldl_unchanged (fun s x => readLane s x j) (fun s x => by simp [hj]) _ r

end Chi

section Iota

/-- One bit of the register added to the constant of a round. -/
def constantStep (c : Lane × UInt8) (j : Nat) : Lane × UInt8 :=
  (if (LFSR86540 c.2).1 then c.1 ^^^ (1 : Lane) <<< (2 ^ j - 1) else c.1, (LFSR86540 c.2).2)

/-- The constant that the register gives for one round, and the register after it. -/
def roundConstant (LFSRstate : UInt8) : Lane × UInt8 := (List.range 7).foldl constantStep (0, LFSRstate)

theorem lanes_iotaStep {s : State} {r : State × UInt8} {c : Lane × UInt8} (hregister : r.2 = c.2)
    (hlanes : lanes r.1 = (lanes s).iota c.1) (j : Nat) :
    (iotaStep r j).2 = (constantStep c j).2 ∧ lanes (iotaStep r j).1 = (lanes s).iota (constantStep c j).1 := by
  simp only [iotaStep, constantStep, hregister, true_and]
  split
  · funext x y
    have hlane := congrFun (congrFun hlanes x) y
    simp only [lanes, Lanes.iota, readLane_xorLane] at hlane ⊢
    by_cases hzero : x = 0 ∧ y = 0
    · rw [if_pos hzero] at hlane ⊢
      rw [if_pos hzero, hlane, BitVec.xor_assoc]
    · rw [if_neg hzero] at hlane ⊢
      rw [if_neg hzero, hlane]
  · exact hlanes

theorem lanes_iota_foldl (s : State) (bits : List Nat) {r : State × UInt8} {c : Lane × UInt8} (hregister : r.2 = c.2)
    (hlanes : lanes r.1 = (lanes s).iota c.1) :
    lanes (bits.foldl iotaStep r).1 = (lanes s).iota (bits.foldl constantStep c).1 ∧
      (bits.foldl iotaStep r).2 = (bits.foldl constantStep c).2 := by
  induction bits generalizing r c with
  | nil => exact ⟨hlanes, hregister⟩
  | cons j bits ih =>
    obtain ⟨hregister, hlanes⟩ := lanes_iotaStep hregister hlanes j
    exact ih hregister hlanes

theorem lanes_iota (s : State) (LFSRstate : UInt8) :
    lanes (iota s LFSRstate).1 = (lanes s).iota (roundConstant LFSRstate).1 ∧
      (iota s LFSRstate).2 = (roundConstant LFSRstate).2 :=
  lanes_iota_foldl s (List.range 7) rfl (by funext x y; simp [Lanes.iota])

/-- The constants of the next rounds. -/
def registerConstants : Nat → UInt8 → List Lane
  | 0, _ => []
  | n + 1, LFSRstate => (roundConstant LFSRstate).1 :: registerConstants n (roundConstant LFSRstate).2

/-- The register gives the constants of the reference. -/
theorem registerConstants_eq : registerConstants 24 0x01 = roundConstants := by decide +kernel

end Iota

section Rounds

theorem lanes_round (r : State × UInt8) :
    lanes (round r).1 = (lanes r.1).round (roundConstant r.2).1 ∧ (round r).2 = (roundConstant r.2).2 := by
  obtain ⟨hlanes, hregister⟩ := lanes_iota (chi (rhoPi (theta r.1))) r.2
  refine ⟨?_, hregister⟩
  rw [round, hlanes, lanes_chi, lanes_rhoPi, lanes_theta]
  rfl

theorem lanes_rounds (n : Nat) (r : State × UInt8) :
    lanes (round^[n] r).1 = (registerConstants n r.2).foldl Lanes.round (lanes r.1) := by
  induction n generalizing r with
  | zero => rfl
  | succ n ih =>
    obtain ⟨hlanes, hregister⟩ := lanes_round r
    rw [Function.iterate_succ_apply, ih, hlanes, hregister]
    rfl

/-- The bytes of the state after the permutation hold the lanes that the reference computes. -/
theorem lanes_permute (s : State) : lanes (KeccakF1600_StatePermute s) = (lanes s).permute := by
  rw [KeccakF1600_StatePermute, lanes_rounds, registerConstants_eq, Lanes.permute]

end Rounds

end KnishIO.Keccak
