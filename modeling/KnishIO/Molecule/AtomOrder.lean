import KnishIO.Molecule.OneTime
import KnishIO.Molecule.Totality

open ByteString

namespace KnishIO

namespace Atom

variable {H : Shake256} {atoms atoms' : List Atom}

/-- With distinct indexes, the view does not depend on the order of the list. -/
theorem version4View_perm (hperm : atoms'.Perm atoms) (hdistinct : (atoms.map Atom.index).Nodup) :
    version4View atoms' = version4View atoms := by
  have htrans (a b c : Atom) (hab : decide (a.index ≤ b.index) = true) (hbc : decide (b.index ≤ c.index) = true) :
      decide (a.index ≤ c.index) = true := by
    rw [decide_eq_true_iff, Int32.le_iff_toInt_le] at hab hbc ⊢
    exact hab.trans hbc
  have htotal (a b : Atom) : (decide (a.index ≤ b.index) || decide (b.index ≤ a.index)) = true := by
    rw [Bool.or_eq_true, decide_eq_true_iff, decide_eq_true_iff, Int32.le_iff_toInt_le, Int32.le_iff_toInt_le]
    exact le_total _ _
  have hsorted : atoms'.mergeSort (fun a b => a.index ≤ b.index) = atoms.mergeSort fun a b => a.index ≤ b.index := by
    refine List.Perm.eq_of_pairwise (fun a b ha hb hab hba => ?_) (List.pairwise_mergeSort htrans htotal atoms')
      (List.pairwise_mergeSort htrans htotal atoms)
      ((List.mergeSort_perm _ _).trans (hperm.trans (List.mergeSort_perm _ _).symm))
    have hindex : a.index = b.index := by
      rw [decide_eq_true_iff, Int32.le_iff_toInt_le] at hab hba
      exact Int32.toInt_inj.mp (le_antisymm hab hba)
    have ha' : a ∈ atoms := hperm.mem_iff.mp ((List.mergeSort_perm _ _).mem_iff.mp ha)
    have hb' : b ∈ atoms := (List.mergeSort_perm _ _).mem_iff.mp hb
    exact List.inj_on_of_nodup_map hdistinct ha' hb' hindex
  rw [version4View, hsorted, version4View]

theorem allVersioned_perm (hperm : atoms'.Perm atoms) : allVersioned atoms' = allVersioned atoms := by
  have hnil : atoms' = [] ↔ atoms = [] := ⟨fun h => by simpa [h] using hperm, fun h => by simpa [h] using hperm⟩
  simp only [allVersioned, ne_eq, hnil, hperm.all_eq]

/-- The hash of versioned atoms with distinct indexes. -/
theorem hashAtomsBase17_perm (H : Shake256) (hperm : atoms'.Perm atoms) (hversioned : allVersioned atoms = true)
    (hdistinct : (atoms.map Atom.index).Nodup) : hashAtomsBase17 H atoms' = hashAtomsBase17 H atoms := by
  have hversioned' : allVersioned atoms' = true := (allVersioned_perm hperm).trans hversioned
  simp only [hashAtomsBase17, hashAtomsHex, hashAtoms, hversioned, hversioned', ↓reduceIte, version4ViewJson,
    version4View_perm hperm hdistinct]

end Atom

namespace Molecule

/-- The same molecule with its atoms listed in another order. -/
structure Permutes (m m' : Molecule) : Prop where
  rest : m' = { m with atoms := m'.atoms }
  atoms : m'.atoms.Perm m.atoms

/-- The atoms that the conservation check reads: those of isotope V, B or F and those that carry the token of a V
atom. -/
def valueAtoms (atoms : List Atom) : List Atom :=
  atoms.filter fun a => isB a || isF a || isV a || atoms.any fun v => isV v && v.token = a.token

/-- What is read in the order of the list stays: the signature, the first atom as the signer, and the values. The
fragments that signing writes are different pieces of one signature, so that of a signed molecule hardly any
permutation but the identity keeps them. -/
structure KeepsReading (m m' : Molecule) : Prop where
  signature : m'.carriedOts = m.carriedOts
  address : m'.atoms.head?.map Atom.walletAddress = m.atoms.head?.map Atom.walletAddress
  token : m'.atoms.head?.map Atom.token = m.atoms.head?.map Atom.token
  values : valueAtoms m'.atoms = valueAtoms m.atoms

section Sums

variable {p : Atom → Bool}

theorem tokenSum_filter (hp : ∀ a, isV a = true → p a = true) (token : ByteString) (result : BinaryFloat.Value)
    (atoms : List Atom) : tokenSum token result (atoms.filter p) = tokenSum token result atoms := by
  induction atoms generalizing result with
  | nil => rfl
  | cons a rest ih =>
    cases hpa : p a with
    | true =>
      rw [List.filter_cons_of_pos hpa, tokenSum, tokenSum]
      split_ifs
      · exact ih result
      · split
        · exact ih _
        · rfl
    | false =>
      have hv : isV a = false := by
        rw [← Bool.not_eq_true]
        exact fun h => by simp [hp a h] at hpa
      rw [List.filter_cons_of_neg (by simp [hpa]), tokenSum, if_pos (by simp [hv])]
      exact ih result

/-- The sums do not see the atoms left out, as long as each atom that shares a token with a V atom stays. -/
theorem tokenSums_filter (hp : ∀ a, isV a = true → p a = true) (earlier atoms : List Atom)
    (hshared : ∀ v ∈ atoms, isV v = true → ∀ a ∈ earlier ++ atoms, a.token = v.token → p a = true) :
    tokenSums (earlier.filter p) (atoms.filter p) = tokenSums earlier atoms := by
  induction atoms generalizing earlier with
  | nil => rfl
  | cons a rest ih =>
    have hnext : tokenSums ((earlier ++ [a]).filter p) (rest.filter p) = tokenSums (earlier ++ [a]) rest := by
      refine ih (earlier ++ [a]) fun v hmem hv b hb htoken => ?_
      rw [List.append_assoc] at hb
      exact hshared v (List.mem_cons_of_mem _ hmem) hv b hb htoken
    rw [List.filter_append] at hnext
    cases hpa : p a with
    | true =>
      rw [List.filter_cons_of_pos hpa, tokenSums, tokenSums]
      have hlast : [a].filter p = [a] := by simp [hpa]
      rw [hlast] at hnext
      cases hv : isV a with
      | false => simpa using hnext
      | true =>
        have hseen : ((earlier.filter p).any fun e => e.token = a.token) = earlier.any fun e => e.token = a.token := by
          rw [List.any_filter, Bool.eq_iff_iff, List.any_eq_true, List.any_eq_true]
          refine exists_congr fun e => and_congr_right fun he => ?_
          simp only [Bool.and_eq_true, decide_eq_true_iff, and_iff_right_iff_imp]
          exact hshared a List.mem_cons_self hv e (List.mem_append_left _ he)
        have hsum : tokenSum a.token (.finite 0) (a :: rest.filter p) = tokenSum a.token (.finite 0) (a :: rest) := by
          have hfiltered := tokenSum_filter hp a.token (.finite 0) (a :: rest)
          rwa [List.filter_cons_of_pos hpa] at hfiltered
        rw [hseen, hsum, hnext]
    | false =>
      have hv : isV a = false := by
        rw [← Bool.not_eq_true]
        exact fun h => by simp [hp a h] at hpa
      have hlast : [a].filter p = [] := by simp [hpa]
      rw [hlast, List.append_nil] at hnext
      rw [List.filter_cons_of_neg (by simp [hpa]), hnext, tokenSums, hv]
      rfl

/-- An atom of another isotope changes nothing in the conservation loop. -/
theorem foldlM_crossStep_filter (hp : ∀ a, (isB a || isF a || isV a) = true → p a = true) (atoms : List Atom)
    (s : BinaryFloat.Value × Bool) : (atoms.filter p).foldlM crossStep s = atoms.foldlM crossStep s := by
  induction atoms generalizing s with
  | nil => rfl
  | cons a rest ih =>
    cases hpa : p a with
    | true =>
      rw [List.filter_cons_of_pos hpa, List.foldlM_cons, List.foldlM_cons]
      simp only [ih]
    | false =>
      have hother : (isB a || isF a || isV a) = false := by
        rw [← Bool.not_eq_true]
        exact fun h => by simp [hp a h] at hpa
      simp only [Bool.or_eq_false_iff] at hother
      have hstep : crossStep s a = some s := by simp [crossStep, hother]
      rw [List.filter_cons_of_neg (by simp [hpa]), List.foldlM_cons, hstep, ih]
      rfl

end Sums

section Reading

variable {m m' : Molecule}

theorem Permutes.nil_iff (h : Permutes m m') : m'.atoms = [] ↔ m.atoms = [] := by
  rw [← List.length_eq_zero_iff, ← List.length_eq_zero_iff, h.atoms.length_eq]

theorem Permutes.molecularHash (h : Permutes m m') : m'.molecularHash = m.molecularHash := by rw [h.rest]

theorem tokenSums_valueAtoms (atoms : List Atom) : tokenSums [] (valueAtoms atoms) = tokenSums [] atoms := by
  refine tokenSums_filter (fun a ha => by simp [ha]) [] atoms fun v hmem hv a _ htoken => ?_
  have hshared : (atoms.any fun b => isV b && b.token = a.token) = true :=
    List.any_eq_true.mpr ⟨v, hmem, by simp [hv, htoken]⟩
  rw [hshared, Bool.or_true]

theorem foldlM_crossStep_valueAtoms (atoms : List Atom) (s : BinaryFloat.Value × Bool) :
    (valueAtoms atoms).foldlM crossStep s = atoms.foldlM crossStep s :=
  foldlM_crossStep_filter (fun a ha => by rw [ha, Bool.true_or]) atoms s

theorem valueAtoms_eq_nil {atoms : List Atom} (h : ∀ a ∈ atoms, (isB a || isF a || isV a) = false) :
    valueAtoms atoms = [] := by
  refine List.filter_eq_nil_iff.mpr fun a ha => ?_
  have hshared : (atoms.any fun v => isV v && v.token = a.token) = false := by
    refine List.any_eq_false.mpr fun v hv => ?_
    have hother := h v hv
    simp only [Bool.or_eq_false_iff] at hother
    simp [hother.2]
  simp [h a ha, hshared]

theorem Permutes.tokenValid (h : Permutes m m') (hvalues : valueAtoms m'.atoms = valueAtoms m.atoms) :
    tokenValid m' = tokenValid m := by
  have hany : (m'.atoms.any fun a => isB a || isF a) = m.atoms.any fun a => isB a || isF a := h.atoms.any_eq
  have hcross : verifyCrossIsotopeConservation m' = verifyCrossIsotopeConservation m := by
    rw [verifyCrossIsotopeConservation, verifyCrossIsotopeConservation, ← foldlM_crossStep_valueAtoms m'.atoms,
      hvalues, foldlM_crossStep_valueAtoms]
  have hsums : tokenSums [] m'.atoms = tokenSums [] m.atoms := by
    rw [← tokenSums_valueAtoms m'.atoms, hvalues, tokenSums_valueAtoms]
  simp only [Molecule.tokenValid, verifyTokenIsotopeV, h.nil_iff, h.molecularHash, hany, hcross, hsums]

/-- The verdict of the signature, by the joined fragments and the first address. -/
theorem Permutes.verifyOts (H : Shake256) (h : Permutes m m') (hsignature : m'.carriedOts = m.carriedOts)
    (hsigner : m'.atoms.head?.map Atom.walletAddress = m.atoms.head?.map Atom.walletAddress) :
    verifyOts H m' = verifyOts H m := by
  unfold Molecule.verifyOts
  cases hatoms : m.atoms with
  | nil => rw [h.nil_iff.mpr hatoms]
  | cons front rest =>
    cases hatoms' : m'.atoms with
    | nil => exact absurd (h.nil_iff.mp hatoms') (by simp [hatoms])
    | cons front' rest' =>
      have haddress : front'.walletAddress = front.walletAddress := by simpa [hatoms, hatoms'] using hsigner
      simp only [h.molecularHash, hsignature, haddress]

theorem Permutes.verifyContinuId (h : Permutes m m')
    (hsigner : m'.atoms.head?.map Atom.token = m.atoms.head?.map Atom.token) :
    verifyContinuId m' = verifyContinuId m := by
  have hany : (m'.atoms.any fun a => a.isotope = ascii "I") = m.atoms.any fun a => a.isotope = ascii "I" := h.atoms.any_eq
  unfold Molecule.verifyContinuId
  cases hatoms : m.atoms with
  | nil => rw [h.nil_iff.mpr hatoms]
  | cons front rest =>
    cases hatoms' : m'.atoms with
    | nil => exact absurd (h.nil_iff.mp hatoms') (by simp [hatoms])
    | cons front' rest' =>
      have htoken : front'.token = front.token := by simpa [hatoms, hatoms'] using hsigner
      rw [hatoms, hatoms'] at hany
      simp only [htoken, hany]

/-- Versioned atoms with distinct indexes give one hash in every order. -/
theorem Permutes.verifyMolecularHash (H : Shake256) (h : Permutes m m') (hversioned : Atom.allVersioned m.atoms = true)
    (hdistinct : (m.atoms.map Atom.index).Nodup) : verifyMolecularHash H m' = verifyMolecularHash H m := by
  simp only [Molecule.verifyMolecularHash, ne_eq, h.nil_iff, h.molecularHash,
    Atom.hashAtomsBase17_perm H h.atoms hversioned hdistinct]

theorem Permutes.check (H : Shake256) (h : Permutes m m') (hversioned : Atom.allVersioned m.atoms = true)
    (hdistinct : (m.atoms.map Atom.index).Nodup) (hkeeps : KeepsReading m m') : check H m' = check H m := by
  simp only [Molecule.check, h.nil_iff, h.verifyContinuId hkeeps.token, h.verifyMolecularHash H hversioned hdistinct,
    h.verifyOts H hkeeps.signature hkeeps.address, h.tokenValid hkeeps.values]

theorem Permutes.verify (H : Shake256) (h : Permutes m m') (hversioned : Atom.allVersioned m.atoms = true)
    (hdistinct : (m.atoms.map Atom.index).Nodup) (hkeeps : KeepsReading m m') : verify H m' = verify H m := by
  simp only [Molecule.verify, h.verifyMolecularHash H hversioned hdistinct, h.verifyOts H hkeeps.signature hkeeps.address,
    h.tokenValid hkeeps.values]

/-- An accepted molecule whose signature and values stay is accepted exactly as long as the first address stays. -/
theorem Permutes.verify_iff {H : Shake256} (h : Permutes m m') (hversioned : Atom.allVersioned m.atoms = true)
    (hdistinct : (m.atoms.map Atom.index).Nodup) (hsignature : m'.carriedOts = m.carriedOts)
    (hvalues : valueAtoms m'.atoms = valueAtoms m.atoms) (haccepted : Molecule.verify H m = .ok true) :
    Molecule.verify H m' = .ok true ↔
      m'.atoms.head?.map Atom.walletAddress = m.atoms.head?.map Atom.walletAddress := by
  obtain ⟨hhash, htoken, hots⟩ := verify_ok_iff.mp haccepted
  constructor
  · intro haccepted'
    obtain ⟨_, _, hots'⟩ := verify_ok_iff.mp haccepted'
    cases hatoms : m.atoms with
    | nil => exact absurd hatoms (verifyMolecularHash_ok_iff.mp hhash).1
    | cons front rest =>
      cases hatoms' : m'.atoms with
      | nil => exact absurd (h.nil_iff.mp hatoms') (by simp [hatoms])
      | cons front' rest' =>
        obtain ⟨_, ots, hdecode, haddress⟩ := verifyOts_ok_inv hatoms hots
        obtain ⟨_, ots', hdecode', haddress'⟩ := verifyOts_ok_inv hatoms' hots'
        rw [hsignature, hdecode] at hdecode'
        obtain rfl := Except.ok.inj hdecode'
        rw [h.molecularHash, haddress] at haddress'
        simp [haddress']
  · intro haddress
    refine verify_ok_iff.mpr ⟨?_, ?_, ?_⟩
    · rw [h.verifyMolecularHash H hversioned hdistinct, hhash]
    · rw [h.tokenValid hvalues, htoken]
    · rw [h.verifyOts H hsignature haddress, hots]

end Reading

end Molecule

end KnishIO
