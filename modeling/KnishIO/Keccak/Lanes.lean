import KnishIO.Keccak

namespace KnishIO.Keccak

section Bytes

theorem get_eq_getElem (s : State) (p : Fin 200) : s.get p = s[p.val] := rfl

theorem get_set (s : State) (a b : Fin 200) (byte : UInt8) :
    (Vector.set s a byte).get b = if b = a then byte else s.get b := by
  simp only [get_eq_getElem, Vector.getElem_set, Fin.ext_iff, eq_comm (a := b.val)]

theorem byteIndex_lt (i : Fin 25) (k : Fin 8) : (byteIndex i k).val < 200 := (byteIndex i k).isLt

theorem div_eight_lt {n : Nat} (hn : n < 64) : n / 8 < 8 := by omega

theorem byteIndex_inj {i i' : Fin 25} {k k' : Fin 8} : byteIndex i k = byteIndex i' k' ↔ i = i' ∧ k = k' := by
  simp only [byteIndex, Fin.ext_iff]
  omega

/-- Every byte of the state lies in one lane. -/
theorem exists_byteIndex (p : Fin 200) : ∃ i k, p = byteIndex i k :=
  ⟨⟨p.val / 8, by omega⟩, ⟨p.val % 8, by omega⟩, Fin.ext (by simp only [byteIndex]; omega)⟩

theorem ext_bytes {s t : State} (h : ∀ i k, s.get (byteIndex i k) = t.get (byteIndex i k)) : s = t := by
  refine Vector.ext fun p hp => ?_
  obtain ⟨i, k, hik⟩ := exists_byteIndex ⟨p, hp⟩
  have hbyte := h i k
  rw [← hik] at hbyte
  exact hbyte

end Bytes

section Load

/-- The bytes of a lane, the first one first. -/
def laneBytes (s : State) (i : Fin 25) : List UInt8 := bytePlaces.map fun k => s.get (byteIndex i k)

theorem load64_eq_foldr (s : State) (i : Fin 25) :
    load64 s i = (laneBytes s i).foldr (fun byte (u : Lane) => u <<< 8 ||| byte.toBitVec.setWidth 64) 0 := rfl

/-- Shifting bytes in from the last to the first puts each in its little-endian place. -/
theorem getLsbD_foldr (bytes : List UInt8) {n : Nat} (hn : n < 64) :
    (bytes.foldr (fun byte (u : Lane) => u <<< 8 ||| byte.toBitVec.setWidth 64) 0).getLsbD n =
      (bytes.getD (n / 8) 0).toBitVec.getLsbD (n % 8) := by
  induction bytes generalizing n with
  | nil => simp
  | cons byte bytes ih =>
    rw [List.foldr_cons, BitVec.getLsbD_or, BitVec.getLsbD_shiftLeft, BitVec.getLsbD_setWidth]
    by_cases hfirst : n < 8
    · simp [hfirst, hn, Nat.div_eq_of_lt hfirst, Nat.mod_eq_of_lt hfirst]
    · obtain ⟨m, rfl⟩ : ∃ m, n = m + 8 := ⟨n - 8, by omega⟩
      rw [Nat.add_sub_cancel]
      have hnext : (m + 8) / 8 = m / 8 + 1 := by omega
      rw [ih (by omega), hnext, Nat.add_mod_right]
      simp [hn]

theorem getLsbD_load64 (s : State) (i : Fin 25) {n : Nat} (hn : n < 64) :
    (load64 s i).getLsbD n = (s.get (byteIndex i ⟨n / 8, div_eight_lt hn⟩)).toBitVec.getLsbD (n % 8) := by
  rw [load64_eq_foldr, getLsbD_foldr _ hn]
  have hbyte : ∀ k : Fin 8, (laneBytes s i).getD k.val 0 = s.get (byteIndex i k) := by
    intro k
    fin_cases k <;> rfl
  rw [← hbyte ⟨n / 8, div_eight_lt hn⟩]

theorem getLsbD_lowByte (u : Lane) (n : Nat) : (lowByte u).toBitVec.getLsbD n = (decide (n < 8) && u.getLsbD n) :=
  BitVec.getLsbD_setWidth ..

/-- The byte of a lane at place `k`. -/
theorem get_byteIndex (s : State) (i : Fin 25) (k : Fin 8) :
    s.get (byteIndex i k) = lowByte (load64 s i >>> (8 * k.val)) := by
  refine UInt8.toBitVec_inj.mp (BitVec.eq_of_getLsbD_eq fun n hn => ?_)
  have hplace : (⟨(8 * k.val + n) / 8, by omega⟩ : Fin 8) = k := Fin.ext (by simp only; omega)
  have hbit : (8 * k.val + n) % 8 = n := by omega
  rw [getLsbD_lowByte, BitVec.getLsbD_ushiftRight, getLsbD_load64 s i (by omega), hplace, hbit]
  simp [hn]

end Load

section Store

/-- The loop of `store64` and `xor64`: each byte is combined with its byte of the lane. -/
def overlay (combine : UInt8 → UInt8 → UInt8) (s : State) (i : Fin 25) (u : Lane) : State :=
  (bytePlaces.foldl
    (fun (r : State × Lane) k =>
      (r.1.set (byteIndex i k) (combine (r.1.get (byteIndex i k)) (lowByte r.2)) (byteIndex_lt i k), r.2 >>> 8)) (s, u)).1

theorem store64_eq_overlay (s : State) (i : Fin 25) (u : Lane) : store64 s i u = overlay (fun _ byte => byte) s i u := rfl

theorem xor64_eq_overlay (s : State) (i : Fin 25) (u : Lane) : xor64 s i u = overlay (· ^^^ ·) s i u := rfl

theorem get_overlay (combine : UInt8 → UInt8 → UInt8) (s : State) (i : Fin 25) (u : Lane) (i' : Fin 25) (k : Fin 8) :
    (overlay combine s i u).get (byteIndex i' k) =
      if i' = i then combine (s.get (byteIndex i k)) (lowByte (u >>> (8 * k.val))) else s.get (byteIndex i' k) := by
  simp only [overlay, bytePlaces, List.foldl_cons, List.foldl_nil, get_set, byteIndex_inj]
  by_cases hi : i' = i
  · subst hi
    fin_cases k <;> simp
  · simp [hi]

theorem load64_store64 (s : State) (i i' : Fin 25) (u : Lane) :
    load64 (store64 s i u) i' = if i' = i then u else load64 s i' := by
  refine BitVec.eq_of_getLsbD_eq fun n hn => ?_
  rw [getLsbD_load64 _ _ hn, store64_eq_overlay, get_overlay]
  split
  · rw [getLsbD_lowByte, BitVec.getLsbD_ushiftRight]
    simp [Nat.mod_lt, Nat.div_add_mod]
  · rw [getLsbD_load64 _ _ hn]

theorem load64_xor64 (s : State) (i i' : Fin 25) (u : Lane) :
    load64 (xor64 s i u) i' = if i' = i then load64 s i' ^^^ u else load64 s i' := by
  refine BitVec.eq_of_getLsbD_eq fun n hn => ?_
  rw [getLsbD_load64 _ _ hn, xor64_eq_overlay, get_overlay]
  split
  case isTrue hi =>
    subst hi
    rw [UInt8.toBitVec_xor, BitVec.getLsbD_xor, BitVec.getLsbD_xor, getLsbD_lowByte, BitVec.getLsbD_ushiftRight,
      getLsbD_load64 _ _ hn]
    simp [Nat.mod_lt, Nat.div_add_mod]
  · rw [getLsbD_load64 _ _ hn]

end Store

section Coordinates

theorem laneIndex_inj {x y x' y' : Fin 5} : laneIndex x y = laneIndex x' y' ↔ x = x' ∧ y = y' := by
  simp only [laneIndex, Fin.ext_iff]
  omega

theorem exists_laneIndex (i : Fin 25) : ∃ x y, i = laneIndex x y :=
  ⟨⟨i.val % 5, by omega⟩, ⟨i.val / 5, by omega⟩, Fin.ext (by simp only [laneIndex]; omega)⟩

@[simp] theorem readLane_writeLane (s : State) (x y x' y' : Fin 5) (lane : Lane) :
    readLane (writeLane s x y lane) x' y' = if x' = x ∧ y' = y then lane else readLane s x' y' := by
  simp only [readLane, writeLane, load64_store64, laneIndex_inj]

@[simp] theorem readLane_xorLane (s : State) (x y x' y' : Fin 5) (lane : Lane) :
    readLane (xorLane s x y lane) x' y' = if x' = x ∧ y' = y then readLane s x' y' ^^^ lane else readLane s x' y' := by
  simp only [readLane, xorLane, load64_xor64, laneIndex_inj]

/-- The lanes determine the state. -/
theorem ext_lanes {s t : State} (h : ∀ x y, readLane s x y = readLane t x y) : s = t := by
  refine ext_bytes fun i k => ?_
  obtain ⟨x, y, rfl⟩ := exists_laneIndex i
  have hlane : load64 s (laneIndex x y) = load64 t (laneIndex x y) := h x y
  rw [get_byteIndex, get_byteIndex, hlane]

end Coordinates

end KnishIO.Keccak
