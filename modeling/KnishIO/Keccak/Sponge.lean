import KnishIO.Keccak.Padding
import KnishIO.Keccak.Permutation
import Mathlib.Data.List.GetD

open ByteString

namespace KnishIO.Keccak

/-- The sponge over the bytes of the state. -/
def byteSponge (rateInBytes : Nat) (hrate : 0 < rateInBytes) : Sponge State :=
  ⟨rateInBytes, hrate, KeccakF1600_StatePermute, xorBytes, fun s k => s.toList.getD k 0⟩

section Absorbing

theorem get_xorBytes (s : State) (input : ByteString) (p : Fin 200) :
    (xorBytes s input).get p = s.get p ^^^ input.getD p.val 0 := by
  rw [get_eq_getElem, xorBytes, Vector.getElem_ofFn]

theorem get_xorByte (s : State) (place : Nat) (byte : UInt8) (p : Fin 200) :
    (xorByte s place byte).get p = if p.val = place then s.get p ^^^ byte else s.get p := by
  rw [get_eq_getElem, xorByte, Vector.getElem_ofFn]

theorem ext_places {s t : State} (h : ∀ p, s.get p = t.get p) : s = t := ext_bytes fun i k => h (byteIndex i k)

theorem xorBytes_nil (s : State) : xorBytes s [] = s := ext_places fun p => by simp [get_xorBytes]

theorem xorBytes_append_byte (s : State) (text : ByteString) (byte : UInt8) :
    xorBytes s (text ++ [byte]) = xorByte (xorBytes s text) text.length byte := by
  refine ext_places fun p => ?_
  rw [get_xorByte, get_xorBytes, get_xorBytes]
  rcases Nat.lt_trichotomy p.val text.length with hlt | heq | hgt
  · rw [if_neg (by omega), List.getD_append _ _ _ _ hlt]
  · have hhere : (text ++ [byte]).getD p.val 0 = byte := by rw [List.getD_append_right _ _ _ _ heq.ge, heq, Nat.sub_self]; rfl
    have hbeyond : text.getD p.val 0 = 0 := List.getD_eq_default _ _ heq.ge
    rw [if_pos heq, hhere, hbeyond, UInt8.xor_zero]
  · rw [if_neg (by omega), List.getD_eq_default _ _ (by simp; omega), List.getD_eq_default _ _ (by omega)]

theorem xorBytes_append_zeros (s : State) (text : ByteString) (n : Nat) :
    xorBytes s (text ++ List.replicate n 0) = xorBytes s text := by
  induction n with
  | zero => rw [List.replicate_zero, List.append_nil]
  | succ n ih =>
    rw [List.replicate_succ', ← List.append_assoc, xorBytes_append_byte, ih]
    refine ext_places fun p => ?_
    simp [get_xorByte]

theorem xorBytes_zeros_byte (s : State) (n : Nat) (byte : UInt8) :
    xorBytes s (List.replicate n 0 ++ [byte]) = xorByte s n byte := by
  rw [xorBytes_append_byte, List.length_replicate, ← List.nil_append (List.replicate n 0), xorBytes_append_zeros, xorBytes_nil]

theorem xorByte_xorByte (s : State) (place : Nat) (a b : UInt8) :
    xorByte (xorByte s place a) place b = xorByte s place (a ^^^ b) := by
  refine ext_places fun p => ?_
  simp only [get_xorByte]
  split
  · rw [UInt8.xor_assoc]
  · rfl

variable {rateInBytes : Nat} (hrate : 0 < rateInBytes)

theorem absorb_block (s : State) {block : ByteString} (hblock : block.length = rateInBytes) (text : ByteString) :
    (byteSponge rateInBytes hrate).absorb s (blocks rateInBytes (block ++ text)) =
      (byteSponge rateInBytes hrate).absorb (KeccakF1600_StatePermute (xorBytes s block)) (blocks rateInBytes text) := by
  rw [blocks_append hrate hblock]
  rfl

theorem absorb_last (s : State) {block : ByteString} (hblock : block.length = rateInBytes) :
    (byteSponge rateInBytes hrate).absorb s (blocks rateInBytes block) = KeccakF1600_StatePermute (xorBytes s block) := by
  have h := absorb_block hrate s hblock []
  rwa [List.append_nil, blocks_nil] at h

/-- The two additions of the padding are one block, or two where the suffix fills the first. -/
theorem switchPhase_eq_absorb (delimitedSuffix : UInt8) (s : State) {rest : ByteString} (hrest : rest.length < rateInBytes) :
    switchPhase rateInBytes delimitedSuffix (xorBytes s rest) rest.length =
      (byteSponge rateInBytes hrate).absorb s (blocks rateInBytes (pad rateInBytes delimitedSuffix rest)) := by
  rw [switchPhase, pad, Nat.mod_eq_of_lt hrest, ← xorBytes_append_byte]
  unfold padding
  by_cases hlast : rest.length = rateInBytes - 1
  · rw [if_pos hlast]
    by_cases hhigh : delimitedSuffix &&& 0x80 = 0
    · rw [if_neg fun h => h.1 hhigh, if_neg (not_not.mpr hhigh), absorb_last hrate s (by simp; omega), xorBytes_append_byte,
        xorBytes_append_byte, hlast, xorByte_xorByte]
    · have hblocks : rest ++ delimitedSuffix :: (List.replicate (rateInBytes - 1) 0 ++ [0x80]) =
          rest ++ [delimitedSuffix] ++ (List.replicate (rateInBytes - 1) 0 ++ [0x80]) := by simp
      rw [if_pos ⟨hhigh, hlast⟩, if_pos hhigh, hblocks, absorb_block hrate s (by simp; omega),
        absorb_last hrate _ (by simp; omega), xorBytes_zeros_byte]
  · have hblock : rest ++ delimitedSuffix :: (List.replicate (rateInBytes - rest.length - 2) 0 ++ [0x80]) =
        rest ++ [delimitedSuffix] ++ List.replicate (rateInBytes - rest.length - 2) 0 ++ [0x80] := by simp
    have hplace : (rest ++ [delimitedSuffix] ++ List.replicate (rateInBytes - rest.length - 2) 0).length = rateInBytes - 1 := by
      simp
      omega
    rw [if_neg fun h => hlast h.2, if_neg hlast, hblock, absorb_last hrate s (by simp; omega),
      xorBytes_append_byte _ (_ ++ List.replicate _ _), xorBytes_append_zeros, hplace]

theorem pad_append_block (delimitedSuffix : UInt8) {block : ByteString} (hblock : block.length = rateInBytes)
    (text : ByteString) :
    pad rateInBytes delimitedSuffix (block ++ text) = block ++ pad rateInBytes delimitedSuffix text := by
  rw [pad, pad, List.length_append, hblock, Nat.add_mod_left, List.append_assoc]

/-- The absorbing loop and the padding after it absorb the padded input block by block. -/
theorem absorbInput_eq_absorb (delimitedSuffix : UInt8) {fuel : Nat} {input : ByteString}
    (hfuel : input.length ≤ fuel) (s : State) :
    let r := absorbInput rateInBytes fuel s input
    switchPhase rateInBytes delimitedSuffix r.1 r.2 =
      (byteSponge rateInBytes hrate).absorb s (blocks rateInBytes (pad rateInBytes delimitedSuffix input)) := by
  induction fuel generalizing s input with
  | zero =>
    obtain rfl := List.eq_nil_of_length_eq_zero (Nat.le_zero.mp hfuel)
    have h := switchPhase_eq_absorb hrate delimitedSuffix s (show ([] : ByteString).length < rateInBytes from hrate)
    rwa [xorBytes_nil] at h
  | succ fuel ih =>
    rw [absorbInput]
    by_cases hempty : input = []
    · subst hempty
      have h := switchPhase_eq_absorb hrate delimitedSuffix s (show ([] : ByteString).length < rateInBytes from hrate)
      rwa [xorBytes_nil] at h
    · rw [if_neg hempty]
      have hpos := List.length_pos_of_ne_nil hempty
      by_cases hfull : rateInBytes ≤ input.length
      · have hblock : (input.take rateInBytes).length = rateInBytes := by simp [hfull]
        simp only [Nat.min_eq_right hfull, if_true]
        rw [ih (by simp; omega)]
        conv_rhs => rw [← List.take_append_drop rateInBytes input]
        rw [pad_append_block _ hblock, absorb_block hrate s hblock]
      · simp only [Nat.min_eq_left (Nat.le_of_not_le hfull)]
        rw [if_neg (by omega), List.take_length]
        exact switchPhase_eq_absorb hrate delimitedSuffix s (by omega)

theorem squeezingState_eq_absorb (delimitedSuffix : UInt8) (input : ByteString) :
    squeezingState rateInBytes delimitedSuffix input =
      (byteSponge rateInBytes hrate).absorb (Vector.replicate 200 0)
      (blocks rateInBytes (pad rateInBytes delimitedSuffix input)) :=
  absorbInput_eq_absorb hrate delimitedSuffix (le_refl input.length) (Vector.replicate 200 0)

end Absorbing

section Squeezing

variable {rateInBytes : Nat} (hrate : 0 < rateInBytes)

theorem take_toList (s : State) {n : Nat} (hn : n ≤ 200) : s.toList.take n = (List.range n).map fun k => s.toList.getD k 0 := by
  have hlength : s.toList.length = 200 := by simp
  refine List.ext_getElem (by simp [hn]) fun k hk _ => ?_
  have hk200 : k < s.toList.length := by
    rw [List.length_take] at hk
    omega
  rw [List.getElem_take, List.getElem_map, List.getElem_range, List.getD_eq_getElem _ _ hk200]

/-- The squeezing loop gives the output of the sponge, block by block. -/
theorem squeezeOutput_eq_squeeze (hroom : rateInBytes ≤ 200) {fuel outputByteLen : Nat} (hfuel : outputByteLen ≤ fuel)
    (s : State) :
    squeezeOutput rateInBytes fuel s outputByteLen = (byteSponge rateInBytes hrate).squeeze s outputByteLen := by
  induction fuel generalizing s outputByteLen with
  | zero =>
    obtain rfl := Nat.le_zero.mp hfuel
    rfl
  | succ fuel ih =>
    rw [squeezeOutput]
    by_cases hzero : outputByteLen = 0
    · subst hzero
      rfl
    · rw [if_neg hzero]
      by_cases hmore : rateInBytes < outputByteLen
      · obtain ⟨rest, rfl⟩ : ∃ rest, outputByteLen = rateInBytes + rest := ⟨outputByteLen - rateInBytes, by omega⟩
        simp only [Nat.min_eq_right hmore.le, Nat.add_sub_cancel_left]
        rw [if_pos (by omega), ih (by omega), take_toList s hroom]
        exact ((byteSponge rateInBytes hrate).squeeze_rate_add s rest).symm
      · simp only [Nat.min_eq_left (Nat.le_of_not_lt hmore), Nat.sub_self]
        rw [if_neg (by omega), List.append_nil, take_toList s (by omega)]
        exact ((byteSponge rateInBytes hrate).squeeze_of_le s (Nat.le_of_not_lt hmore)).symm

end Squeezing

section Reference

/-- The lane of a block at an index, its bytes read as a little-endian number. -/
def blockLane (block : ByteString) (i : Fin 25) : Lane :=
  (bytePlaces.map fun k => block.getD (byteIndex i k).val 0).foldr (fun byte u => u <<< 8 ||| byte.toBitVec.setWidth 64) 0

def Lanes.addBlock (A : Lanes) (block : ByteString) : Lanes := fun x y => A x y ^^^ blockLane block (laneIndex x y)

/-- The byte at place `k` of the state, in the order of the lanes. -/
def Lanes.byte (A : Lanes) (k : Nat) : UInt8 := lowByte (A (Fin.ofNat 5 (k / 8)) (Fin.ofNat 5 (k / 40)) >>> (8 * (k % 8)))

/-- The sponge of the reference, over lanes. -/
def referenceSponge (rateInBytes : Nat) (hrate : 0 < rateInBytes) : Sponge Lanes :=
  ⟨rateInBytes, hrate, Lanes.permute, Lanes.addBlock, Lanes.byte⟩

theorem getLsbD_blockLane (block : ByteString) (i : Fin 25) {n : Nat} (hn : n < 64) :
    (blockLane block i).getLsbD n = (block.getD (byteIndex i ⟨n / 8, div_eight_lt hn⟩).val 0).toBitVec.getLsbD (n % 8) := by
  rw [blockLane, getLsbD_foldr _ hn]
  have hbyte : ∀ k : Fin 8, (bytePlaces.map fun k => block.getD (byteIndex i k).val 0).getD k.val 0 =
      block.getD (byteIndex i k).val 0 := by
    intro k
    fin_cases k <;> rfl
  rw [← hbyte ⟨n / 8, div_eight_lt hn⟩]

theorem lanes_xorBytes (s : State) (block : ByteString) : lanes (xorBytes s block) = (lanes s).addBlock block := by
  funext x y
  refine BitVec.eq_of_getLsbD_eq fun n hn => ?_
  simp only [lanes, readLane, Lanes.addBlock, BitVec.getLsbD_xor, getLsbD_load64 _ _ hn, getLsbD_blockLane _ _ hn, get_xorBytes,
    UInt8.toBitVec_xor]

theorem getD_toList (s : State) {k : Nat} (hk : k < 200) : s.toList.getD k 0 = s.get ⟨k, hk⟩ := by
  rw [List.getD_eq_getElem _ _ (by simpa using hk), get_eq_getElem]
  simp

theorem byte_lanes (s : State) {k : Nat} (hk : k < 200) : s.toList.getD k 0 = (lanes s).byte k := by
  have hplace : (⟨k, hk⟩ : Fin 200) = byteIndex (laneIndex (Fin.ofNat 5 (k / 8)) (Fin.ofNat 5 (k / 40))) ⟨k % 8, by omega⟩ := by
    refine Fin.ext ?_
    simp only [byteIndex, laneIndex, Fin.ofNat]
    omega
  rw [getD_toList s hk, hplace, get_byteIndex]
  rfl

/-- The sponge over bytes computes what the sponge of the reference computes on the lanes. -/
theorem byteSponge_simulates {rateInBytes : Nat} (hrate : 0 < rateInBytes) (hroom : rateInBytes ≤ 200) :
    (byteSponge rateInBytes hrate).Simulates (referenceSponge rateInBytes hrate) lanes where
  rate := rfl
  permute := lanes_permute
  add := lanes_xorBytes
  byte := fun s _ hk => byte_lanes s (hk.trans_le hroom)

theorem lanes_zero : lanes (Vector.replicate 200 0) = fun _ _ => 0 := by
  funext x y
  refine BitVec.eq_of_getLsbD_eq fun n hn => ?_
  rw [lanes, readLane, getLsbD_load64 _ _ hn, get_eq_getElem, Vector.getElem_replicate]
  simp

end Reference

section Function

/-- A rate that fits into the state. -/
structure Fits (rate capacity : UInt32) : Prop where
  low : 8 ≤ rate
  high : rate ≤ 1600
  sum : rate + capacity = 1600
  bytes : rate % 8 = 0

theorem rateInBytes_bounds {rate : UInt32} (hlow : 8 ≤ rate) (hhigh : rate ≤ 1600) :
    0 < rate.toNat / 8 ∧ rate.toNat / 8 ≤ 200 := by
  have hlow' : 8 ≤ rate.toNat := UInt32.le_iff_toNat_le.mp hlow
  have hhigh' : rate.toNat ≤ 1600 := UInt32.le_iff_toNat_le.mp hhigh
  omega

/-- With a rate that fits, the source computes the sponge over the bytes. -/
theorem Keccak_eq_byteSponge {rate capacity : UInt32} (h : Fits rate capacity) (hrate : 0 < rate.toNat / 8) (input : ByteString)
    (delimitedSuffix : UInt8) (outputByteLen : Nat) :
    KnishIO.Keccak rate capacity input delimitedSuffix outputByteLen =
      .written ((byteSponge (rate.toNat / 8) hrate).hash (Vector.replicate 200 0) (pad (rate.toNat / 8) delimitedSuffix input)
        outputByteLen) := by
  obtain ⟨-, hroom⟩ := rateInBytes_bounds h.low h.high
  have hinside : ¬ (rate = 0 ∨ 1600 < rate) := by
    rintro (rfl | hlarge)
    · exact absurd hrate (by decide)
    · exact absurd h.high (UInt32.not_le.mpr hlarge)
  unfold KnishIO.Keccak
  rw [if_neg (by simp [h.sum, h.bytes]), if_neg hinside]
  simp only [squeezeOutput_eq_squeeze hrate hroom (le_refl outputByteLen), squeezingState_eq_absorb hrate]
  rfl

/-- For a rate up to the size of the state, with the capacity that fills it, the source computes the sponge of the
reference on the input, the suffix and the multi-rate padding; for other capacities and for rates of broken bytes it
writes nothing. -/
theorem Keccak_eq_reference {rate : UInt32} (hlow : 8 ≤ rate) (hhigh : rate ≤ 1600) (capacity : UInt32) (input : ByteString)
    {delimitedSuffix : UInt8} (hsuffix : delimitedSuffix ≠ 0) (outputByteLen : Nat) :
    ∃ padded, bits padded = bits input ++ suffixBits delimitedSuffix ++
        Sponge.multiRatePadding (8 * (rate.toNat / 8)) (bits input ++ suffixBits delimitedSuffix).length ∧
      KnishIO.Keccak rate capacity input delimitedSuffix outputByteLen =
        if rate + capacity = 1600 ∧ rate % 8 = 0 then
          .written ((referenceSponge (rate.toNat / 8) (rateInBytes_bounds hlow hhigh).1).hash (fun _ _ => 0) padded outputByteLen)
        else .unwritten := by
  obtain ⟨hpos, hroom⟩ := rateInBytes_bounds hlow hhigh
  refine ⟨pad (rate.toNat / 8) delimitedSuffix input, bits_pad hpos hsuffix input, ?_⟩
  split
  case isTrue hfits =>
    have hsimulates := byteSponge_simulates hpos hroom
    rw [Keccak_eq_byteSponge ⟨hlow, hhigh, hfits.1, hfits.2⟩ hpos, hsimulates.hash, lanes_zero]
  case isFalse hbad =>
    unfold KnishIO.Keccak
    rw [if_pos (by rwa [← not_and_or])]

theorem Keccak_eq_reference_abc :
    ∃ padded, bits padded = bits (ascii "abc") ++ suffixBits 0x1F ++
        Sponge.multiRatePadding (8 * ((1088 : UInt32).toNat / 8)) (bits (ascii "abc") ++ suffixBits 0x1F).length ∧
      FIPS202_SHAKE256 (ascii "abc") 32 =
        .written ((referenceSponge ((1088 : UInt32).toNat / 8) (by decide)).hash (fun _ _ => 0) padded 32) := by
  have hlow : (8 : UInt32) ≤ 1088 := by decide
  have hhigh : (1088 : UInt32) ≤ 1600 := by decide
  have hfits : (1088 : UInt32) + 512 = 1600 ∧ (1088 : UInt32) % 8 = 0 := by decide
  obtain ⟨padded, hbits, houtput⟩ := Keccak_eq_reference hlow hhigh 512 (ascii "abc") (show (0x1F : UInt8) ≠ 0 by decide) 32
  exact ⟨padded, hbits, houtput.trans (if_pos hfits)⟩

end Function

section Collisions

variable {rateInBytes : Nat} {delimitedSuffix : UInt8}

theorem xorBytes_injective (block : ByteString) : Function.Injective fun s => xorBytes s block := by
  intro s t h
  refine ext_places fun p => ?_
  have hp := congrArg (fun u : State => u.get p) h
  simp only [get_xorBytes] at hp
  exact (UInt8.xor_left_inj _).mp hp

/-- Blocks that fit into the state are added without loss. -/
theorem eq_of_xorBytes (s : State) {block block' : ByteString} (hlength : block.length = block'.length)
    (hroom : block.length ≤ 200)
    (h : xorBytes s block = xorBytes s block') : block = block' := by
  refine List.ext_getElem hlength fun k hk hk' => ?_
  have hp := congrArg (fun u : State => u.get ⟨k, by omega⟩) h
  simp only [get_xorBytes] at hp
  have hbyte := (UInt8.xor_right_inj _).mp hp
  rwa [List.getD_eq_getElem _ _ hk, List.getD_eq_getElem _ _ hk'] at hbyte

theorem pad_append_front (front text : ByteString) (hfront : rateInBytes ∣ front.length) :
    pad rateInBytes delimitedSuffix (front ++ text) = front ++ pad rateInBytes delimitedSuffix text := by
  obtain ⟨n, hn⟩ := hfront
  rw [pad, pad, List.length_append, hn, Nat.mul_add_mod, List.append_assoc]

/-- A suffix that leaves the last bit free fits with the padding into the last block. -/
theorem length_pad (hlow : delimitedSuffix &&& 0x80 = 0) {input : ByteString} (hinput : input.length < rateInBytes) :
    (pad rateInBytes delimitedSuffix input).length = rateInBytes := by
  rw [pad, Nat.mod_eq_of_lt hinput, padding]
  split
  · rw [if_neg (not_not.mpr hlow)]
    simp
    omega
  · simp
    omega

/-- Inputs that differ in one block alone lead to different states, whatever stands before and after that block. -/
theorem squeezingState_block (hrate : 0 < rateInBytes) (hroom : rateInBytes ≤ 200) (hsuffix : delimitedSuffix ≠ 0)
    (hlow : delimitedSuffix &&& 0x80 = 0) {front block block' back : ByteString} (hfront : rateInBytes ∣ front.length)
    (hblock : block.length = rateInBytes ∧ block'.length = rateInBytes ∨
      back = [] ∧ block.length < rateInBytes ∧ block'.length < rateInBytes) (hne : block ≠ block') :
    squeezingState rateInBytes delimitedSuffix (front ++ (block ++ back)) ≠
      squeezingState rateInBytes delimitedSuffix (front ++ (block' ++ back)) := by
  intro h
  refine hne ?_
  rw [squeezingState_eq_absorb hrate, squeezingState_eq_absorb hrate, pad_append_front _ _ hfront, pad_append_front _ _ hfront,
    Sponge.blocks_append_front hrate hfront, Sponge.blocks_append_front hrate hfront, Sponge.absorb_append,
      Sponge.absorb_append] at h
  obtain ⟨hfull, hfull'⟩ | ⟨rfl, hlast, hlast'⟩ := hblock
  · rw [pad_append_block _ hfull, pad_append_block _ hfull', absorb_block hrate _ hfull, absorb_block hrate _ hfull'] at h
    have hback := Sponge.absorb_injective (S := byteSponge rateInBytes hrate) statePermute_injective xorBytes_injective
      (blocks rateInBytes (pad rateInBytes delimitedSuffix back))
    exact eq_of_xorBytes _ (hfull.trans hfull'.symm) (by omega) (statePermute_injective (hback h))
  · have hlength := length_pad hlow hlast
    have hlength' := length_pad hlow hlast'
    rw [List.append_nil, List.append_nil, absorb_last hrate _ hlength, absorb_last hrate _ hlength'] at h
    exact pad_injective hrate hsuffix (eq_of_xorBytes _ (hlength.trans hlength'.symm) (by omega) (statePermute_injective h))

theorem squeezingState_block_letters :
    squeezingState 136 0x1F ([] ++ (ascii "a" ++ [])) ≠ squeezingState 136 0x1F ([] ++ (ascii "ab" ++ [])) :=
  squeezingState_block (by decide) (by decide) (by decide) (by decide) (by decide) (.inr ⟨rfl, by decide, by decide⟩) (by decide)

end Collisions

end KnishIO.Keccak
