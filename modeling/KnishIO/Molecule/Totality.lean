import KnishIO.Molecule.Balancing
import KnishIO.Molecule.Isotope
import KnishIO.Molecule.Reread
import KnishIO.Molecule.RoundTrip

open ByteString

namespace KnishIO

namespace Molecule

section Indexes

/-- The chain loop from an index on; an index past the normalized hash has no meaning. -/
def chainFrom (H : Shake256) (normalizedHash : List Int) : Nat → List ByteString → Throws (List ByteString)
  | _, [] => .ok []
  | index, workingChunk :: otsChunks => do
    let n ← Throws.ofOption .undefinedBehavior normalizedHash[index]?
    let keyFragments ← chainFrom H normalizedHash (index + 1) otsChunks
    return (Wallet.chainStep H)^[(8 + n).toNat] workingChunk :: keyFragments

/-- `verifyOts` with the `int` that `normalize` counts in and the indexes into the normalized hash. -/
def verifyOtsIndexed (H : Shake256) (m : Molecule) : Throws Unit :=
  match m.atoms with
  | [] => .error .atomsNotFound
  | front :: _ =>
    if !WalletCrypto.isSignableHash m.molecularHash then .error .signatureMalformed
    else do
      let normalizedHash ← normalizeInt (enumerate m.molecularHash)
      let ots ← decodeOts m.carriedOts
      let keyFragments ← chainFrom H normalizedHash 0 (chunkSubstr ots 128)
      if Wallet.addressOfEnds H keyFragments ≠ front.walletAddress then .error .signatureMismatch else .ok ()

/-- Where there are as many symbols as chunks, every index is in range. -/
theorem chainFrom_eq (H : Shake256) (normalizedHash : List Int) (index : Nat) (otsChunks : List ByteString)
    (hfit : index + otsChunks.length ≤ normalizedHash.length) :
    chainFrom H normalizedHash index otsChunks = .ok (verifyChunks H (normalizedHash.drop index) otsChunks) := by
  induction otsChunks generalizing index with
  | nil => cases normalizedHash.drop index <;> simp [chainFrom, verifyChunks, HashChain.advance]
  | cons workingChunk otsChunks ih =>
    rw [List.length_cons] at hfit
    have hindex : index < normalizedHash.length := by omega
    have hread : Throws.ofOption .undefinedBehavior normalizedHash[index]? = .ok normalizedHash[index] :=
      Throws.ofOption_eq _ (List.getElem?_eq_getElem hindex)
    rw [chainFrom, Throws.bind_of_ok hread, ih (index + 1) (by omega), List.drop_eq_getElem_cons hindex]
    rfl

/-- A decoded signature has one of the two lengths. -/
theorem decodeOts_length {ots decoded : ByteString} (h : decodeOts ots = .ok decoded) :
    decoded.length = 2048 ∨ decoded.length = 8192 := by
  unfold decodeOts at h
  split_ifs at h with hplain hstrict hdecoded
  · exact Except.ok.inj h ▸ hplain
  · exact Except.ok.inj h ▸ hdecoded

/-- A signature that does not decode is malformed. -/
theorem decodeOts_error {ots : ByteString} {e : Exception} (h : decodeOts ots = .error e) : e = .signatureMalformed := by
  unfold decodeOts at h
  split_ifs at h
  · exact (Except.error.inj h).symm
  · exact (Except.error.inj h).symm

/-- At most 64 chunks meet the 64 symbols of a signable hash: nothing is read out of range, and nothing overflows. -/
theorem verifyOtsIndexed_eq (H : Shake256) (m : Molecule) : verifyOtsIndexed H m = verifyOts H m := by
  unfold verifyOtsIndexed verifyOts
  cases m.atoms with
  | nil => rfl
  | cons front rest =>
    dsimp only
    split_ifs with hsignable
    · rfl
    · have hhash : WalletCrypto.isSignableHash m.molecularHash = true := by simpa using hsignable
      have hsymbols : (normalize (enumerate m.molecularHash)).length = 64 := (normalizedHash_spec hhash).1
      have hfit : TotalsFit (enumerate m.molecularHash) :=
        totalsFit_of_length (enumerate_inRange _) (by rw [length_enumerate hhash]; norm_num)
      rw [Throws.bind_of_ok (normalizeInt_ok hfit)]
      cases hdecode : decodeOts m.carriedOts with
      | error e => rfl
      | ok ots =>
        have hchunks : (chunkSubstr ots 128).length ≤ 64 := by
          rw [chunkSubstr, length_blocks]
          have := decodeOts_length hdecode
          omega
        have hchain := chainFrom_eq H (normalize (enumerate m.molecularHash)) 0 (chunkSubstr ots 128) (by omega)
        rw [Throws.bind_of_ok rfl, Throws.bind_of_ok hchain]
        rfl

end Indexes

section Verdicts

variable {F : Json.FloatText} {H : Shake256} {now : Int64} {text : ByteString} {m : Molecule}

/-- The ways `verifyOts` ends. -/
theorem verifyOts_ends (H : Shake256) (m : Molecule) : verifyOts H m = .ok () ∨ verifyOts H m = .error .atomsNotFound ∨
    verifyOts H m = .error .signatureMalformed ∨ verifyOts H m = .error .signatureMismatch := by
  unfold verifyOts
  cases m.atoms with
  | nil => exact .inr (.inl rfl)
  | cons front rest =>
    dsimp only
    split_ifs with hsignable
    · exact .inr (.inr (.inl rfl))
    · cases hdecode : decodeOts m.carriedOts with
      | error e => exact .inr (.inr (.inl (by rw [decodeOts_error hdecode])))
      | ok ots =>
        dsimp only
        split_ifs
        · exact .inr (.inr (.inr rfl))
        · exact .inl rfl

/-- A molecule of UTF-8 strings has a hash to compare with. -/
theorem verifyMolecularHash_total (H : Shake256) (hutf8 : m.WireUtf8) : ∃ valid, verifyMolecularHash H m = .ok valid := by
  unfold verifyMolecularHash
  split_ifs
  · obtain ⟨hash, hhash⟩ := Atom.hashAtomsBase17_ok H fun _ a ha => (hutf8.atoms a ha).toValidUtf8
    exact ⟨decide (hash = m.molecularHash), by rw [hhash]; rfl⟩
  · exact ⟨false, rfl⟩

theorem verify_ok_iff : verify H m = .ok true ↔
    verifyMolecularHash H m = .ok true ∧ tokenValid m = true ∧ verifyOts H m = .ok () := by
  unfold verify
  cases verifyMolecularHash H m with
  | error e => simp [Except.map]
  | ok valid => cases verifyOts H m <;> simp [Except.map]

/-- The verification functions end on every parsed molecule, the signature check normally or with one of its three
exceptions, and `check` returns where both `verify` and `verifyContinuId` hold. -/
theorem verification_agrees (H : Shake256) (hparse : jsonToObject F now text = .ok m) :
    verifyOtsIndexed H m = verifyOts H m ∧
      (verifyOts H m = .ok () ∨ verifyOts H m = .error .atomsNotFound ∨ verifyOts H m = .error .signatureMalformed ∨
        verifyOts H m = .error .signatureMismatch) ∧
      (∃ verdict, verify H m = .ok verdict) ∧
      (check H m = .ok () ↔ verify H m = .ok true ∧ verifyContinuId m = true) := by
  refine ⟨verifyOtsIndexed_eq H m, verifyOts_ends H m, ?_, ?_⟩
  · obtain ⟨valid, hvalid⟩ := verifyMolecularHash_total H (jsonToObject_wireUtf8 hparse)
    rw [verify, hvalid]
    exact ⟨_, rfl⟩
  · rw [check_ok_iff, verify_ok_iff]
    constructor
    · rintro ⟨-, hcontinuId, hhash, hots, htoken⟩
      exact ⟨⟨hhash, htoken, hots⟩, hcontinuId⟩
    · rintro ⟨⟨hhash, htoken, hots⟩, hcontinuId⟩
      exact ⟨(verifyMolecularHash_ok_iff.mp hhash).1, hcontinuId, hhash, hots, htoken⟩

/-- A signed transfer, written and parsed: its three atoms carry a signature whose chunks are all checked. -/
theorem verification_agrees_transfer : ∃ text m, jsonToObject integersOnly 0 text = .ok m ∧ m.atoms.length = 3 ∧
    verifyOtsIndexed (.constant 0) m = .ok () ∧ verify (.constant 0) m = .ok true ∧ verifyContinuId m = true := by
  obtain ⟨text, m, hparse, hatoms, hcheck⟩ := transfer_parsed integersOnly 0
  obtain ⟨hindexed, -, -, hagrees⟩ := verification_agrees (.constant 0) hparse
  obtain ⟨-, -, -, hots, -⟩ := check_ok_iff.mp hcheck
  have hlength := congrArg List.length hatoms
  rw [List.length_map] at hlength
  exact ⟨text, m, hparse, hlength, hindexed.trans hots, hagrees.mp hcheck⟩

end Verdicts

end Molecule

end KnishIO
