import KnishIO.Molecule

namespace KnishIO

namespace Molecule

/-- Every symbol lies in the range the chains are built for. -/
def InRange (cs : List Int) : Prop := ∀ c ∈ cs, -8 ≤ c ∧ c ≤ 8

theorem InRange.tail {c : Int} {cs : List Int} (h : InRange (c :: cs)) : InRange cs := fun d hd => h d (by simp [hd])

theorem inRange_cons {c : Int} {cs : List Int} (hc : -8 ≤ c ∧ c ≤ 8) (hcs : InRange cs) : InRange (c :: cs) := by
  intro d hd
  rcases List.mem_cons.mp hd with rfl | hd
  · exact hc
  · exact hcs d hd

theorem symbolValue_range (c : UInt8) : ∀ v, symbolValue c = some v → -8 ≤ v ∧ v ≤ 8 := by
  intro v hv
  unfold symbolValue at hv
  split_ifs at hv with hdigit hletter
  · have hlow := UInt8.le_iff_toNat_le.mp hdigit.1
    have hhigh := UInt8.le_iff_toNat_le.mp hdigit.2
    obtain rfl := Option.some.inj hv
    simp at hlow hhigh
    omega
  · have hlow := UInt8.le_iff_toNat_le.mp hletter.1
    have hhigh := UInt8.le_iff_toNat_le.mp hletter.2
    obtain rfl := Option.some.inj hv
    simp at hlow hhigh
    omega

theorem enumerate_inRange (hash : ByteString) : InRange (enumerate hash) := by
  intro v hv
  obtain ⟨c, _, hc⟩ := List.mem_filterMap.mp hv
  exact symbolValue_range c v hc

theorem symbolValue_isSome {c : UInt8} (hc : WalletCrypto.isBase17 c = true) : ∃ v, symbolValue c = some v := by
  unfold symbolValue
  split_ifs with hdigit hletter
  · exact ⟨_, rfl⟩
  · exact ⟨_, rfl⟩
  · simp only [WalletCrypto.isBase17, Bool.or_eq_true, Bool.and_eq_true, decide_eq_true_eq] at hc
    exact (hc.elim hdigit hletter).elim

/-- A signable hash has 64 symbols. -/
theorem length_enumerate {hash : ByteString} (h : WalletCrypto.isSignableHash hash = true) :
    (enumerate hash).length = 64 := by
  simp only [WalletCrypto.isSignableHash, Bool.and_eq_true, decide_eq_true_eq, List.all_eq_true] at h
  obtain ⟨hlen, hall⟩ := h
  have hkeep : ∀ s : ByteString, (∀ c ∈ s, WalletCrypto.isBase17 c = true) → (enumerate s).length = s.length := by
    intro s
    induction s with
    | nil => exact fun _ => rfl
    | cons c s ih =>
      intro hs
      obtain ⟨v, hv⟩ := symbolValue_isSome (hs c (by simp))
      have ih := ih fun d hd => hs d (by simp [hd])
      rw [enumerate] at ih ⊢
      rw [List.filterMap_cons, hv]
      simp [ih]
  rw [hkeep hash hall, hlen]

/-- The sum still points the way the passes go. -/
def Heading (up : Bool) (total : Int) : Prop := if up then total ≤ 0 else 0 ≤ total

theorem shift_spec {up : Bool} {total c : Int} (hhead : Heading up total) (hne : total ≠ 0) (hmove : movable up c = true)
    (hc : -8 ≤ c ∧ c ≤ 8) :
    Heading up (shift up total) ∧ (shift up total).natAbs < total.natAbs ∧ shift up c - shift up total = c - total ∧
      -8 ≤ shift up c ∧ shift up c ≤ 8 := by
  cases up <;> simp only [Heading, movable, shift, Bool.false_eq_true, ↓reduceIte, decide_eq_true_eq] at hhead hmove ⊢ <;>
    omega

/-- What one pass keeps: length, range, the distance between sum and total, the heading; and it
moves the total while a symbol can still move. -/
theorem normalizePass_spec (up : Bool) (total : Int) (cs : List Int) (hrange : InRange cs) (hhead : Heading up total)
    (hne : total ≠ 0) :
    let r := normalizePass up total cs
    r.1.length = cs.length ∧ InRange r.1 ∧ r.1.sum - r.2 = cs.sum - total ∧ Heading up r.2 ∧
      r.2.natAbs ≤ total.natAbs ∧ ((∃ c ∈ cs, movable up c = true) → r.2.natAbs < total.natAbs) := by
  induction cs generalizing total with
  | nil => exact ⟨rfl, hrange, rfl, hhead, le_refl _, by simp⟩
  | cons c cs ih =>
    have hc := hrange c (by simp)
    unfold normalizePass
    by_cases hmove : movable up c = true
    · obtain ⟨hhead', hless, hdiff, hc'⟩ := shift_spec hhead hne hmove hc
      rw [if_pos hmove]
      by_cases hzero : shift up total = 0
      · rw [if_pos hzero]
        refine ⟨by simp, inRange_cons hc' hrange.tail, ?_, hzero ▸ hhead', by simp, fun _ => ?_⟩
        · simp only [List.sum_cons]
          omega
        · simpa [Int.natAbs_pos] using hne
      · rw [if_neg hzero]
        obtain ⟨hlen, hr, hsum, hh, hle, _⟩ := ih _ hrange.tail hhead' hzero
        refine ⟨by simp [hlen], inRange_cons hc' hr, ?_, hh, by dsimp only; omega, fun _ => by dsimp only; omega⟩
        simp only [List.sum_cons]
        omega
    · rw [if_neg hmove]
      obtain ⟨hlen, hr, hsum, hh, hle, hlt⟩ := ih total hrange.tail hhead hne
      refine ⟨by simp [hlen], inRange_cons hc hr, ?_, hh, hle, ?_⟩
      · simp only [List.sum_cons]
        omega
      · rintro ⟨d, hd, hd'⟩
        rcases List.mem_cons.mp hd with rfl | hd
        · exact absurd hd' hmove
        · exact hlt ⟨d, hd, hd'⟩

/-- A list whose sum has not reached zero has a symbol that can still move. -/
theorem exists_movable {up : Bool} {cs : List Int} (hhead : Heading up cs.sum) (hne : cs.sum ≠ 0) :
    ∃ c ∈ cs, movable up c = true := by
  by_contra hnone
  push Not at hnone
  cases up with
  | true =>
    have hnonneg : 0 ≤ cs.sum := List.sum_nonneg fun c hc => by
      have := hnone c hc
      simp [movable] at this
      omega
    simp only [Heading, ↓reduceIte] at hhead
    omega
  | false =>
    have hnonpos := List.sum_le_card_nsmul cs 0 fun c hc => by
      have := hnone c hc
      simp [movable] at this
      omega
    rw [smul_zero] at hnonpos
    simp only [Heading, Bool.false_eq_true, ↓reduceIte] at hhead
    omega

theorem normalizeLoop_spec (up : Bool) (fuel : Nat) (cs : List Int) (hrange : InRange cs) (hhead : Heading up cs.sum)
    (hfuel : cs.sum.natAbs ≤ fuel) :
    let r := normalizeLoop up fuel cs.sum cs
    r.length = cs.length ∧ InRange r ∧ r.sum = 0 := by
  induction fuel generalizing cs with
  | zero => exact ⟨rfl, hrange, by simp only [normalizeLoop]; omega⟩
  | succ fuel ih =>
    unfold normalizeLoop
    split
    next hzero => exact ⟨rfl, hrange, hzero⟩
    next hne =>
      obtain ⟨hlen, hr, hsum, hh, _, hlt⟩ := normalizePass_spec up cs.sum cs hrange hhead hne
      have hless := hlt (exists_movable hhead hne)
      have htotal : (normalizePass up cs.sum cs).2 = (normalizePass up cs.sum cs).1.sum := by omega
      dsimp only
      rw [htotal] at hh hless ⊢
      obtain ⟨hlen', hr', hsum'⟩ := ih _ hr hh (by omega)
      exact ⟨hlen'.trans hlen, hr', hsum'⟩

/-- Normalising keeps the number and the range of the symbols and makes their sum zero. -/
theorem normalize_spec {cs : List Int} (hrange : InRange cs) :
    (normalize cs).length = cs.length ∧ InRange (normalize cs) ∧ (normalize cs).sum = 0 := by
  refine normalizeLoop_spec _ _ cs hrange ?_ (le_refl _)
  by_cases hneg : cs.sum < 0 <;> simp [Heading, hneg] <;> omega

/-- The normalised symbols of a hash. -/
def normalizedHash (hash : ByteString) : List Int := normalize (enumerate hash)

theorem normalizedHash_spec {hash : ByteString} (h : WalletCrypto.isSignableHash hash = true) :
    (normalizedHash hash).length = 64 ∧ InRange (normalizedHash hash) ∧ (normalizedHash hash).sum = 0 := by
  obtain ⟨hlen, hrange, hsum⟩ := normalize_spec (enumerate_inRange hash)
  exact ⟨hlen.trans (length_enumerate h), hrange, hsum⟩

end Molecule

end KnishIO
