import KnishIO.Molecule.RoundTrip

open ByteString

namespace KnishIO

namespace Molecule

/-- The ContinuID atom of a remainder wallet. -/
def continuIdAtom (clock : Nat → Int64) (sourceWallet remainderWallet : Wallet) : Atom :=
  Atom.new (clock 1) remainderWallet.position remainderWallet.address "I" remainderWallet.token [] []
    (ascii "walletBundle") remainderWallet.bundle
    ([(ascii "previousPosition", sourceWallet.position)] ++
      (if remainderWallet.mlkemPublicKey = [] then [] else [(ascii "pubkey", toBase64 remainderWallet.mlkemPublicKey)]) ++
      [(ascii "characters", ascii "BASE64")]) 1

/-- The isotope of the first atom of a builder with a ContinuID atom. -/
def Builder.frontIsotope : Builder → String
  | .initMeta _ _ _ _ => "M"
  | .initAuthorization _ _ => "U"
  | _ => "C"

theorem exec_addContinuIdAtom (clock : Nat → Int64) (sourceWallet remainderWallet : Wallet) {m : Molecule}
    (hm : m.remainderWallet = some remainderWallet) :
    (addContinuIdAtom clock sourceWallet 1).exec m =
      (.ok (), { m with atoms := m.atoms ++ [continuIdAtom clock sourceWallet remainderWallet] }) := by
  obtain ⟨_, _, _, _, _, _, _, _⟩ := m
  cases hm
  rfl

/-- What such a builder leaves: the signing atom and the ContinuID atom of the remainder wallet. -/
theorem continuId_run {clock : Nat → Int64} {b : Builder} (hb : b.continuId = true) {m built : Molecule}
    {remainderWallet : Wallet} (hm : m.remainderWallet = some remainderWallet) (hfresh : m.atoms = [])
    {atoms : List Atom} (h : (b.run clock).exec m = (.ok atoms, built)) :
    ∃ front : Atom, front.place = b.source.place ∧ front.token = b.source.token ∧
      front.isotope = ascii b.frontIsotope ∧ front.otsFragment = [] ∧ front.version = none ∧
      built = { m with molecularHash := [], atoms := [front, continuIdAtom clock b.source remainderWallet] } := by
  -- every such builder clears the hash, appends its front atom and then the ContinuID atom
  have key {front : Atom}
      (h : (do pushAtom front; addContinuIdAtom clock b.source 1; builtAtoms : Act Exception Molecule (List Atom)).exec
        { m with molecularHash := [] } = (.ok atoms, built)) :
      built = { m with molecularHash := [], atoms := [front, continuIdAtom clock b.source remainderWallet] } := by
    simp only [pushAtom, builtAtoms, Act.exec_bind, Act.exec_modify, Act.andThen_ok, hfresh, List.nil_append] at h
    rw [exec_addContinuIdAtom clock b.source remainderWallet (by exact hm)] at h
    exact (Prod.mk.inj h).2.symm
  cases b with
  | initValue | initValues | initDepositBuffer | initWithdrawBuffer | initTokenFusion => cases hb
  | initTokenCreation source recipient amount tokenMeta => exact ⟨_, rfl, rfl, rfl, rfl, rfl, key h⟩
  | initMeta wallet metas metaType metaId => exact ⟨_, rfl, rfl, rfl, rfl, rfl, key h⟩
  | initWalletCreation source wallet atomMeta => exact ⟨_, rfl, rfl, rfl, rfl, rfl, key h⟩
  | initShadowWalletClaim source wallet => exact ⟨_, rfl, rfl, rfl, rfl, rfl, key h⟩
  | initAuthorization source encrypt => exact ⟨_, rfl, rfl, rfl, rfl, rfl, key h⟩
  | initTokenReplenish source credited amount units =>
    cases hunits : unitsMeta units with
    | error e =>
      simp [Builder.run, initTokenReplenish, clearHash, hunits] at h
    | ok tokenUnits =>
      simp only [Builder.run, initTokenReplenish, clearHash, Act.exec_bind, Act.exec_modify, Act.andThen_ok,
        Act.exec_ofExcept, hunits] at h
      exact ⟨_, rfl, rfl, rfl, rfl, rfl, key h⟩

end Molecule

end KnishIO
