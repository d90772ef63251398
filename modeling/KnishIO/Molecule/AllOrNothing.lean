import KnishIO.Molecule.Fusion
import KnishIO.Molecule.Signing
import KnishIO.Molecule.SingleRecipient

open ByteString

namespace KnishIO

namespace Molecule

open Selection

/-- What a caller reads of a molecule is as before. -/
structure Same (m t : Molecule) : Prop where
  atoms : t.atoms = m.atoms
  molecularHash : t.molecularHash = m.molecularHash
  bundle : t.bundle = m.bundle

theorem Same.refl (m : Molecule) : Same m m := ⟨rfl, rfl, rfl⟩

theorem observes_same (m : Molecule) : Observes (Same m) m where
  start := .refl m
  appended atoms := by
    constructor
    · intro h
      exact ⟨h.molecularHash.symm, List.append_right_eq_self.mp h.atoms⟩
    · rintro ⟨hhash, rfl⟩
      exact ⟨List.append_nil _, hhash.symm, rfl⟩

section Sign

variable {H : Shake256} {secret : ByteString} {anonymous compressed : Bool} {m : Molecule} {atoms : List Atom}

/-- The atoms can be hashed: the version 4 view of a versioned list is UTF-8. -/
def Hashable (atoms : List Atom) : Prop := Atom.allVersioned atoms = true → (Atom.version4View atoms).utf8 = true

theorem hashable_iff : (∃ hash, Atom.hashAtomsBase17 H atoms = .ok hash) ↔ Hashable atoms := by
  rw [Atom.hashAtomsBase17_eq, Atom.hashAtoms, Hashable]
  split
  next hversioned =>
    rw [Atom.version4ViewJson]
    constructor
    · rintro ⟨hash, h⟩ -
      obtain ⟨digest, hdigest, -⟩ := Throws.map_ok h
      obtain ⟨text, htext, -⟩ := Throws.map_ok hdigest
      exact (dumpJson_ok htext).1
    · intro h
      rw [dumpJson, Json.dump_of_utf8 (h hversioned)]
      exact ⟨_, rfl⟩
  next hnone => exact iff_of_true ⟨_, rfl⟩ fun h => absurd h hnone

/-- A key can be derived. -/
def Keyed (secret position : ByteString) (otsVersion : Int) : Prop :=
  (otsVersion = 1 ∨ otsVersion = 2) ∧ secret ≠ [] ∧ position ≠ []

theorem keyed_iff {token position : ByteString} {otsVersion : Int} :
    (∃ key, Wallet.generateWalletKey H secret token position otsVersion = .ok key) ↔ Keyed secret position otsVersion := by
  constructor
  · rintro ⟨key, hkey⟩
    exact Wallet.generateWalletKey_inv hkey
  · rintro ⟨hversion, hsecret, hposition⟩
    obtain ⟨indexedKeyHex, hkey⟩ := Wallet.generateWalletKey_eq H token hversion hsecret hposition
    exact ⟨_, hkey⟩

/-- Signing has nothing to change, or it goes through, or what it had written before it throws was there already: the
bundle of the secret and, where there is one, the hash of the atoms. -/
def SignsCleanly (H : Shake256) (secret : ByteString) (anonymous : Bool) (m : Molecule) : Prop :=
  ∀ front rest, m.atoms = front :: rest →
    Hashable m.atoms ∧ Keyed secret front.position m.signingOtsVersion ∨
      (anonymous = true ∨ m.bundle = Wallet.generateBundleHash H secret) ∧
        (Hashable m.atoms → Atom.hashAtomsBase17 H m.atoms = .ok m.molecularHash)

theorem signedBundle_eq_iff : signedBundle H secret anonymous m = m.bundle ↔
    anonymous = true ∨ m.bundle = Wallet.generateBundleHash H secret := by
  cases anonymous <;> simp [signedBundle, eq_comm]

theorem restores_sign :
    Act.Restores Thrown (Same m) (sign H secret anonymous compressed) m ↔ SignsCleanly H secret anonymous m := by
  obtain hatoms | ⟨front, rest, hatoms, hcases⟩ := sign_cases H secret compressed m
  · rw [Act.restores_iff_of_exec_error (sign_exec_empty H secret anonymous compressed hatoms) nofun]
    refine iff_of_true (.refl m) fun front rest h => ?_
    cases hatoms.symm.trans h
  have hclean : SignsCleanly H secret anonymous m ↔
      Hashable m.atoms ∧ Keyed secret front.position m.signingOtsVersion ∨
        signedBundle H secret anonymous m = m.bundle ∧
          (Hashable m.atoms → Atom.hashAtomsBase17 H m.atoms = .ok m.molecularHash) := by
    rw [signedBundle_eq_iff]
    constructor
    · exact fun h => h front rest hatoms
    · intro h front' rest' hatoms'
      obtain ⟨rfl, rfl⟩ := List.cons.inj (hatoms.symm.trans hatoms')
      exact h
  obtain ⟨e, hhash⟩ | ⟨hash, hhash, hcases⟩ := hcases
  · have hnot : ¬ Hashable m.atoms := by
      rw [← hashable_iff (H := H), hhash]
      rintro ⟨hash, h⟩
      cases h
    have he : Thrown e := by
      rw [hashAtoms_error hhash]
      exact nofun
    rw [Act.restores_iff_of_exec_error (sign_exec_unhashed secret anonymous compressed hatoms hhash) he, hclean]
    simp only [hnot, false_and, false_or, false_implies, and_true]
    exact ⟨Same.bundle, fun h => ⟨rfl, rfl, h⟩⟩
  have hhashable : Hashable m.atoms := hashable_iff.mp ⟨hash, hhash⟩
  obtain ⟨e, hkey⟩ | ⟨key, signature, hkey, hsig⟩ := hcases
  · have hnot : ¬ Keyed secret front.position m.signingOtsVersion := by
      intro hkeyed
      have hsome : ∃ key, Wallet.generateWalletKey H secret front.token front.position m.signingOtsVersion = .ok key :=
        keyed_iff.mpr hkeyed
      obtain ⟨key, h⟩ := hsome
      cases hkey.symm.trans h
    have he : Thrown e := by
      rintro rfl
      cases generateWalletKey_error hkey
    rw [Act.restores_iff_of_exec_error (sign_exec_unkeyed anonymous compressed hatoms hhash hkey) he, hclean, hhash]
    simp only [hnot, and_false, false_or, hhashable, true_implies, Except.ok.injEq]
    exact ⟨fun h => ⟨h.bundle, h.molecularHash⟩, fun h => ⟨rfl, h.2, h.1⟩⟩
  · rw [hclean]
    exact iff_of_true (Act.restores_of_exec_ok (sign_exec hatoms anonymous hhash hkey hsig))
      (.inl ⟨hhashable, keyed_iff.mp ⟨key, hkey⟩⟩)

end Sign

section Calls

/-- What makes a builder that throws leave the molecule as it was: whatever can throw is in order by the time the hash
has been cleared or an atom pushed. The fusion builder checks first, but for the units that leave and the kept ones. -/
def Builder.Clean (m : Molecule) : Builder → Prop
  | initValue source recipient remainder amount =>
    (Writable source.tokenUnits ∨ m.molecularHash = []) ∧ (Writable source.tokenUnits →
      Writable recipient.tokenUnits ∧ Writable remainder.tokenUnits ∧ (∃ k, stoi source.balance = .ok k) ∧
        ∃ k, stoi amount = .ok k)
  | initValues source recipients amounts remainder =>
    (Writable source.tokenUnits ∨ m.molecularHash = []) ∧ (Writable source.tokenUnits →
      Credited (fun w => Writable w.tokenUnits) (Writable remainder.tokenUnits ∧ ∃ k, stoll source.balance = .ok k)
        0 recipients amounts)
  | initDepositBuffer source _ _ amount tradeRates =>
    WritableRates tradeRates ∧ (∃ k, stoll source.balance = .ok k) ∧ ∃ k, stoll amount = .ok k
  | initWithdrawBuffer source recipients amounts _ =>
    (Writable source.tokenUnits ∨ m.molecularHash = []) ∧ (Writable source.tokenUnits →
      Credited (fun _ => True) (∃ k, stoll source.balance = .ok k) 0 recipients amounts)
  | initTokenFusion _ source _ _ ids newId =>
    Accepts source ids newId →
      (Writable (select (·.id) source.tokenUnits ids) ∨ m.molecularHash = []) ∧
        (Writable (select (·.id) source.tokenUnits ids) → ∀ held, stoll source.balance = .ok held →
          -2 ^ 63 ≤ held - ids.length → Writable (remaining (·.id) source.tokenUnits [ids]))
  | initTokenReplenish _ _ _ units => Writable units ∨ m.molecularHash = []
  | _ => True

/-- The last steps of the builders with a ContinuID atom throw nothing. -/
theorem restores_continuId {R : Molecule → Prop} (clock : Nat → Int64) (source : Wallet) (front : Atom) (s : Molecule) :
    Act.Restores Thrown R (do pushAtom front; addContinuIdAtom clock source 1; builtAtoms) s := by
  obtain ⟨_, _, _, _, _, _, _, remainderWallet⟩ := s
  cases remainderWallet <;> exact Act.restores_of_exec_ok rfl

theorem restores_builder {R : Molecule → Prop} {m : Molecule} (hR : Observes R m) (clock : Nat → Int64) (b : Builder) :
    Act.Restores Thrown R (b.run clock) m ↔ b.Clean m := by
  cases b with
  | initValue source recipient remainder amount => exact restores_initValue clock source recipient remainder hR amount
  | initValues source recipients amounts remainder =>
    exact restores_initValues clock source remainder hR recipients amounts
  | initDepositBuffer source buffer remainder amount tradeRates =>
    exact restores_initDepositBuffer clock source buffer remainder hR amount tradeRates
  | initWithdrawBuffer source recipients amounts remainder =>
    exact restores_initWithdrawBuffer clock source remainder hR recipients amounts
  | initTokenFusion drawn source recipient remainder ids newId => exact restores_initTokenFusion hR
  | initTokenReplenish source credited amount units =>
    refine restores_clearHash.trans ((restores_firstUnits hR fun tokenUnits => ?_).trans (and_iff_left fun _ => trivial))
    exact iff_true_intro (restores_continuId clock source _ _)
  | initTokenCreation source recipient amount tokenMeta =>
    exact restores_clearHash.trans (iff_true_intro (restores_continuId clock source _ _))
  | initMeta wallet metas metaType metaId =>
    exact restores_clearHash.trans (iff_true_intro (restores_continuId clock wallet _ _))
  | initWalletCreation source wallet atomMeta =>
    exact restores_clearHash.trans (iff_true_intro (restores_continuId clock source _ _))
  | initShadowWalletClaim source wallet =>
    exact restores_clearHash.trans (iff_true_intro (restores_continuId clock source _ _))
  | initAuthorization source encrypt =>
    exact restores_clearHash.trans (iff_true_intro (restores_continuId clock source _ _))

/-- A call of a builder or of `sign`. -/
inductive Call where
  | build (clock : Nat → Int64) (b : Builder)
  | sign (H : Shake256) (secret : ByteString) (anonymous compressed : Bool)

namespace Call

/-- If the call throws, the molecule is as it was. -/
def AllOrNothing (m : Molecule) : Call → Prop
  | build clock b => Act.Restores Thrown (Same m) (b.run clock) m
  | sign H secret anonymous compressed => Act.Restores Thrown (Same m) (Molecule.sign H secret anonymous compressed) m

def Clean (m : Molecule) : Call → Prop
  | build _ b => b.Clean m
  | sign H secret anonymous _ => SignsCleanly H secret anonymous m

theorem allOrNothing_iff (m : Molecule) (call : Call) : call.AllOrNothing m ↔ call.Clean m := by
  cases call with
  | build clock b => exact restores_builder (observes_same m) clock b
  | sign H secret anonymous compressed => exact restores_sign

/-- A balance that is no number is found out when two atoms have been pushed. -/
theorem half_built :
    ¬ (build (fun _ => 0) (.initValue { funded 0 with balance := ascii "x" } (funded 0) (funded 0) (ascii "1"))).AllOrNothing
      { createdAt := 0 } := by
  intro h
  obtain ⟨-, hrest⟩ := (restores_builder (observes_same _) _ _).mp h
  obtain ⟨-, -, ⟨k, hk⟩, -⟩ := hrest (List.forall_mem_nil _)
  cases hk

end Call

end Calls

end Molecule

end KnishIO
