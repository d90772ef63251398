import KnishIO.Molecule.Conservation
import KnishIO.Molecule.OneTime

open ByteString

namespace KnishIO

/-- What a signature is meant to cover. -/
structure Content where
  position : ByteString
  walletAddress : ByteString
  isotope : ByteString
  token : ByteString
  value : ByteString
  batchId : ByteString
  metaType : ByteString
  metaId : ByteString
  «meta» : List (ByteString × ByteString)
  createdAt : Int64
  deriving DecidableEq, Repr

namespace Atom

def content (atom : Atom) : Content where
  position := atom.position
  walletAddress := atom.walletAddress
  isotope := atom.isotope
  token := atom.token
  value := atom.value
  batchId := atom.batchId
  metaType := atom.metaType
  metaId := atom.metaId
  «meta» := atom.meta
  createdAt := atom.createdAt

section Pieces

/-- The pieces that the legacy sponge absorbs one after another. -/
def pieces (count : Nat) (atom : Atom) : List ByteString :=
  [Decimal.ofNat count, atom.position, atom.walletAddress, atom.isotope, atom.token, atom.value, atom.batchId,
    atom.metaType, atom.metaId] ++ (atom.meta.flatMap fun m => [m.1, m.2]) ++ [Decimal.ofInt atom.createdAt.toInt]

def spongePieces (atoms : List Atom) : List ByteString := atoms.flatMap (pieces atoms.length)

theorem flatten_metaPieces (metas : List (ByteString × ByteString)) :
    (metas.flatMap fun m => [m.1, m.2]).flatten = metas.flatMap fun m => m.1 ++ m.2 := by
  induction metas with
  | nil => rfl
  | cons m metas ih => simp [ih]

theorem flatten_pieces (count : Nat) (atom : Atom) : (pieces count atom).flatten = sponge count atom := by
  simp [pieces, sponge, flatten_metaPieces]

theorem flatten_flatMap_pieces (count : Nat) (atoms : List Atom) :
    (atoms.flatMap (pieces count)).flatten = atoms.flatMap (sponge count) := by
  induction atoms with
  | nil => rfl
  | cons atom atoms ih => rw [List.flatMap_cons, List.flatMap_cons, List.flatten_append, flatten_pieces, ih]

theorem flatten_spongePieces (atoms : List Atom) : (spongePieces atoms).flatten = molecularSponge atoms :=
  flatten_flatMap_pieces atoms.length atoms

theorem metaPieces_injective {xs ys : List (ByteString × ByteString)}
    (h : (xs.flatMap fun m => [m.1, m.2]) = ys.flatMap fun m => [m.1, m.2]) : xs = ys := by
  induction xs generalizing ys with
  | nil =>
    cases ys with
    | nil => rfl
    | cons y ys => simp at h
  | cons x xs ih =>
    cases ys with
    | nil => simp at h
    | cons y ys =>
      simp only [List.flatMap_cons, List.cons_append, List.nil_append, List.cons.injEq] at h
      obtain ⟨hkey, hvalue, hrest⟩ := h
      rw [ih hrest, Prod.ext hkey hvalue]

/-- An atom's pieces determine its content. -/
theorem content_of_pieces {count : Nat} {a b : Atom} (h : pieces count a = pieces count b) : a.content = b.content := by
  obtain ⟨hfront, hlast⟩ := List.append_inj' h (by simp only [List.length_singleton])
  obtain ⟨hfields, hmetas⟩ := List.append_inj hfront (by simp only [List.length_cons])
  have hcreatedAt : a.createdAt = b.createdAt := by
    have hdecimal := Decimal.ofInt_injective (List.singleton_inj.mp hlast)
    exact Int64.toInt_inj.mp hdecimal
  simp only [List.cons.injEq, and_true, true_and] at hfields
  obtain ⟨hposition, haddress, hisotope, htoken, hvalue, hbatch, hmetaType, hmetaId⟩ := hfields
  simp only [content, Content.mk.injEq]
  exact ⟨hposition, haddress, hisotope, htoken, hvalue, hbatch, hmetaType, hmetaId, metaPieces_injective hmetas,
    hcreatedAt⟩

theorem length_pieces (count : Nat) (atom : Atom) : (pieces count atom).length = 10 + 2 * atom.meta.length := by
  have hmetas : (atom.meta.flatMap fun m => [m.1, m.2]).length = 2 * atom.meta.length := by
    induction atom.meta with
    | nil => rfl
    | cons m metas ih =>
      simp only [List.flatMap_cons, List.length_append, List.length_cons, List.length_nil, ih]
      ring
  simp only [pieces, List.length_append, hmetas, List.length_cons, List.length_nil]
  ring

/-- Lists with as many metas on each atom are determined by their pieces. -/
theorem contents_of_spongePieces {atoms₁ atoms₂ : List Atom}
    (hmetas : atoms₁.map (·.meta.length) = atoms₂.map (·.meta.length)) (h : spongePieces atoms₁ = spongePieces atoms₂) :
    atoms₁.map content = atoms₂.map content := by
  have hcount : atoms₁.length = atoms₂.length := by simpa using congrArg List.length hmetas
  rw [spongePieces, spongePieces, hcount, List.flatMap_def, List.flatMap_def] at h
  have hlengths : (atoms₁.map (pieces atoms₂.length)).map List.length =
      (atoms₂.map (pieces atoms₂.length)).map List.length := by
    have := congrArg (List.map fun n => 10 + 2 * n) hmetas
    simpa [Function.comp_def, length_pieces] using this
  have hpieces := flatten_inj_of_lengths hlengths h
  apply List.ext_getElem (by simpa using hcount)
  intro i h₁ h₂
  have hi := congrArg (·[i]?) hpieces
  simp only [List.length_map] at h₁ h₂
  simp only [List.getElem?_map, List.getElem?_eq_getElem h₁, List.getElem?_eq_getElem h₂, Option.map_some,
    Option.some.injEq] at hi
  simpa using content_of_pieces hi

end Pieces

/-- Lists of atoms whose difference shows in what the legacy sponge absorbs. -/
inductive Distinguishable (atoms₁ atoms₂ : List Atom) : Prop where
  /-- The first pieces that differ are not prefixes of one another. -/
  | incomparable (common : List ByteString) {p q : ByteString} (rest₁ rest₂ : List ByteString)
      (h₁ : spongePieces atoms₁ = common ++ p :: rest₁) (h₂ : spongePieces atoms₂ = common ++ q :: rest₂)
      (hpq : ¬ p <+: q) (hqp : ¬ q <+: p)
  /-- The same number of pieces on each atom, and their lengths agree but for one piece. -/
  | aligned (hcontent : atoms₁.map content ≠ atoms₂.map content)
      (hmetas : atoms₁.map (·.meta.length) = atoms₂.map (·.meta.length))
      (hlengths : LengthsButOne (spongePieces atoms₁) (spongePieces atoms₂))

theorem Distinguishable.molecularSponge_ne {atoms₁ atoms₂ : List Atom} (h : Distinguishable atoms₁ atoms₂) :
    molecularSponge atoms₁ ≠ molecularSponge atoms₂ := by
  rw [← flatten_spongePieces, ← flatten_spongePieces]
  cases h with
  | incomparable common rest₁ rest₂ h₁ h₂ hpq hqp =>
    rw [h₁, h₂]
    exact flatten_ne_of_incomparable common hpq hqp rest₁ rest₂
  | aligned hcontent hmetas hlengths =>
    exact fun heq => hcontent (contents_of_spongePieces hmetas (flatten_inj_of_lengthsButOne hlengths heq))

theorem hashAtomsBase17_legacy (H : Shake256) {atoms : List Atom} (h : ∀ a ∈ atoms, a.version = none) :
    hashAtomsBase17 H atoms = .ok (base17 (shake256 H (molecularSponge atoms) 256)) := by
  have hversioned : allVersioned atoms = false := by
    cases atoms with
    | nil => rfl
    | cons a as => simp [allVersioned, h a]
  simp [hashAtomsBase17_eq, hashAtoms, hversioned, Except.map]

end Atom

namespace Molecule

/-- What it takes for one signature to be accepted for two hashes: they normalise alike on its chains, the
checks exhibit a collision, or a chain value comes back within sixteen hashes. -/
def SharedSignature (H : Shake256) (hash₁ hash₂ ots : ByteString) : Prop :=
  (∀ i < (chunkSubstr ots 128).length, (normalizedHash hash₁)[i]? = (normalizedHash hash₂)[i]?) ∨
    ExhibitCollision H hash₁ ots hash₂ ots ∨
    ∃ chunk ∈ chunkSubstr ots 128, ∃ d, 0 < d ∧ d ≤ 16 ∧ (Wallet.chainStep H)^[d] chunk = chunk

theorem ExhibitCollision.symm {H : Shake256} {hash₁ ots₁ hash₂ ots₂ : ByteString}
    (h : ExhibitCollision H hash₁ ots₁ hash₂ ots₂) : ExhibitCollision H hash₂ ots₂ hash₁ ots₁ := by
  obtain ⟨bits, hcollides⟩ := h
  refine ⟨bits, hcollides.mono fun x hx => ?_⟩
  obtain h | h := List.mem_append.mp hx
  · exact List.mem_append_right _ h
  · exact List.mem_append_left _ h

/-- Two digits of one chain: the chain comes back after as many steps as they differ. -/
theorem returns_or_collision {H : Shake256} {hash₁ hash₂ ots : ByteString} {i : Nat} {n₁ n₂ : Int} {chunk : ByteString}
    (hn₁ : (normalizedHash hash₁)[i]? = some n₁) (hn₂ : (normalizedHash hash₂)[i]? = some n₂)
    (hchunk : (chunkSubstr ots 128)[i]? = some chunk) (h₁ : -8 ≤ n₁) (h₂ : n₂ ≤ 8) (hlt : n₁ < n₂)
    (hend : (Wallet.chainStep H)^[(8 + n₁).toNat] chunk = (Wallet.chainStep H)^[(8 + n₂).toNat] chunk) :
    ExhibitCollision H hash₁ ots hash₂ ots ∨
      ∃ chunk ∈ chunkSubstr ots 128, ∃ d, 0 < d ∧ d ≤ 16 ∧ (Wallet.chainStep H)^[d] chunk = chunk := by
  obtain hreturn | hcollision := chunk_eq_or_collision hn₁ hn₂ hchunk hchunk h₁ hlt hend
  · exact .inr ⟨chunk, List.mem_of_getElem? hchunk, (n₂ - n₁).toNat, by omega, by omega, hreturn⟩
  · exact .inl hcollision

theorem sharedSignature_of_accepted {H : Shake256} {hash₁ hash₂ sig ots : ByteString} (h : decodeOts sig = .ok ots)
    (hs₁ : WalletCrypto.isSignableHash hash₁ = true) (hs₂ : WalletCrypto.isSignableHash hash₂ = true)
    (haddress : signingAddress H hash₁ ots = signingAddress H hash₂ ots) : SharedSignature H hash₁ hash₂ ots := by
  obtain ⟨hends, _⟩ | hcollision := verifyChunks_eq_or_collision h h hs₁ hs₂ haddress
  · by_cases halike : ∀ i < (chunkSubstr ots 128).length, (normalizedHash hash₁)[i]? = (normalizedHash hash₂)[i]?
    · exact .inl halike
    · push Not at halike
      obtain ⟨i, hi, hne⟩ := halike
      obtain ⟨hdigits₁, hrange₁, _⟩ := normalizedHash_spec hs₁
      obtain ⟨hdigits₂, hrange₂, _⟩ := normalizedHash_spec hs₂
      obtain ⟨hlen, _⟩ := decodeOts_chunks h
      have hcount : (chunkSubstr ots 128).length ≤ 64 := by
        rw [chunkSubstr, length_blocks]
        omega
      have hn₁ := List.getElem?_eq_getElem (show i < (normalizedHash hash₁).length by omega)
      have hn₂ := List.getElem?_eq_getElem (show i < (normalizedHash hash₂).length by omega)
      have hchunk := List.getElem?_eq_getElem hi
      have hr₁ := hrange₁ _ (List.mem_of_getElem? hn₁)
      have hr₂ := hrange₂ _ (List.mem_of_getElem? hn₂)
      have hend := congrArg (·[i]?) hends
      simp only [verifyChunks, HashChain.getElem?_advance, List.getElem?_map, hn₁, hn₂, hchunk, Option.map_some,
        Option.bind_some, Option.some.injEq] at hend
      rw [hn₁, hn₂, ne_eq, Option.some.injEq] at hne
      obtain hlt | hgt := lt_or_gt_of_ne hne
      · exact .inr (returns_or_collision hn₁ hn₂ hchunk hr₁.1 hr₂.2 hlt hend)
      · obtain hcollision | hreturns := returns_or_collision hn₂ hn₁ hchunk hr₂.1 hr₁.2 hgt hend.symm
        · exact .inr (.inl hcollision.symm)
        · exact .inr (.inr hreturns)
  · exact .inr (.inl hcollision)

theorem verify_ok_inv {H : Shake256} {m : Molecule} (h : verify H m = .ok true) :
    verifyMolecularHash H m = .ok true ∧ verifyOts H m = .ok () := by
  unfold verify at h
  cases hhash : verifyMolecularHash H m with
  | error e => simp [hhash, Except.map] at h
  | ok valid =>
    simp only [hhash, Except.map, Except.ok.injEq, Bool.and_eq_true] at h
    refine ⟨by rw [h.1.1], ?_⟩
    cases hots : verifyOts H m with
    | error e => simp [hots] at h
    | ok _ => rfl

theorem verifyMolecularHash_legacy {H : Shake256} {m : Molecule} (hlegacy : ∀ a ∈ m.atoms, a.version = none)
    (h : verifyMolecularHash H m = .ok true) :
    Atom.base17 (shake256 H (Atom.molecularSponge m.atoms) 256) = m.molecularHash := by
  unfold verifyMolecularHash at h
  split_ifs at h with hne
  · simpa [Atom.hashAtomsBase17_legacy H hlegacy, Except.map] using h
  · cases h

/-- Lists whose difference shows are bound by the legacy hash and by what is signed under it. -/
theorem legacyHash_binds (H : Shake256) (m₁ m₂ : Molecule) (hlegacy₁ : ∀ a ∈ m₁.atoms, a.version = none)
    (hlegacy₂ : ∀ a ∈ m₂.atoms, a.version = none) (hdiffer : Atom.Distinguishable m₁.atoms m₂.atoms) :
    Atom.molecularSponge m₁.atoms ≠ Atom.molecularSponge m₂.atoms ∧
      ((shake256 H (Atom.molecularSponge m₁.atoms) 256 = shake256 H (Atom.molecularSponge m₂.atoms) 256 →
          Atom.molecularSponge m₁.atoms = Atom.molecularSponge m₂.atoms) →
        verifyMolecularHash H m₁ = .ok true →
          (m₂.molecularHash = m₁.molecularHash →
            verifyMolecularHash H m₂ ≠ .ok true ∧ verify H m₂ ≠ .ok true) ∧
          (m₂.carriedOts = m₁.carriedOts →
            m₂.atoms.head?.map (·.walletAddress) = m₁.atoms.head?.map (·.walletAddress) →
            verifyOts H m₁ = .ok () → verify H m₂ = .ok true →
            m₁.molecularHash ≠ m₂.molecularHash ∧
              ∃ ots, decodeOts m₁.carriedOts = .ok ots ∧ SharedSignature H m₁.molecularHash m₂.molecularHash ots)) := by
  have hsponge := hdiffer.molecularSponge_ne
  refine ⟨hsponge, fun hnocollision hhash₁ => ?_⟩
  have hreject : m₂.molecularHash = m₁.molecularHash → verifyMolecularHash H m₂ ≠ .ok true := by
    intro hsame hhash₂
    have hbase₁ := verifyMolecularHash_legacy hlegacy₁ hhash₁
    have hbase₂ := verifyMolecularHash_legacy hlegacy₂ hhash₂
    have hdigest := Atom.base17_injective (by simp) (by simp) (hbase₁.trans (hsame.symm.trans hbase₂.symm))
    exact hsponge (hnocollision hdigest)
  refine ⟨fun hsame => ⟨hreject hsame, fun hverify => hreject hsame (verify_ok_inv hverify).1⟩, ?_⟩
  intro hots haddress hots₁ hverify₂
  obtain ⟨hhash₂, hots₂⟩ := verify_ok_inv hverify₂
  refine ⟨fun hsame => hreject hsame.symm hhash₂, ?_⟩
  cases hatoms₁ : m₁.atoms with
  | nil => simp [verifyOts, hatoms₁] at hots₁
  | cons front₁ rest₁ =>
    cases hatoms₂ : m₂.atoms with
    | nil => simp [verifyOts, hatoms₂] at hots₂
    | cons front₂ rest₂ =>
      obtain ⟨hs₁, ots₁, hdecode₁, haddress₁⟩ := verifyOts_ok_inv hatoms₁ hots₁
      obtain ⟨hs₂, ots₂, hdecode₂, haddress₂⟩ := verifyOts_ok_inv hatoms₂ hots₂
      obtain rfl : ots₂ = ots₁ := by
        rw [hots, hdecode₁] at hdecode₂
        exact (Except.ok.inj hdecode₂).symm
      have hfront : front₂.walletAddress = front₁.walletAddress := by simpa [hatoms₁, hatoms₂] using haddress
      refine ⟨ots₂, hdecode₁, sharedSignature_of_accepted hdecode₁ hs₁ hs₂ ?_⟩
      rw [haddress₁, haddress₂, hfront]

section Example

/-- A function that tells one string from all others. -/
def marking (marked : ByteString) : Shake256 := ⟨fun s size => List.replicate size (if s = marked then 1 else 0), by simp⟩

theorem shake256_marked (marked : ByteString) (bits : Nat) :
    shake256 (marking marked) marked bits = List.replicate (bits / 8) 1 := by
  simp [shake256, marking]

theorem shake256_unmarked {marked s : ByteString} (h : s ≠ marked) (bits : Nat) :
    shake256 (marking marked) s bits = List.replicate (bits / 8) 0 := by
  simp [shake256, marking, h]

/-- Two atoms that carry one signature and move an amount between the wallets. -/
def movedAtoms (amount : String) : List Atom :=
  [{ valueAtom "V" "T" ("-" ++ amount) with
      walletAddress := toHexString (List.replicate 32 0), otsFragment := List.replicate 1024 48 },
    { valueAtom "V" "T" amount with index := 1, otsFragment := List.replicate 1024 48 }]

def moved (amount : String) (digest : UInt8) : Molecule :=
  { moleculeOf (movedAtoms amount) with molecularHash := Atom.base17 (List.replicate 32 digest) }

/-- A function that tells what the hash of six absorbs from all other strings. -/
def amountHash : Shake256 := marking (Atom.molecularSponge (movedAtoms "6"))

theorem legacy_movedAtoms (amount : String) : ∀ a ∈ movedAtoms amount, a.version = none := by
  simp only [movedAtoms, List.forall_mem_cons, List.not_mem_nil, false_implies, implies_true, and_true]
  exact ⟨rfl, rfl⟩

theorem distinguishable_movedAtoms : Atom.Distinguishable (movedAtoms "5") (movedAtoms "6") := by
  apply Atom.Distinguishable.aligned
  · decide +kernel
  · decide +kernel
  · exact ⟨(Atom.spongePieces (movedAtoms "5")).take 19, ascii "0", [], (Atom.spongePieces (movedAtoms "6")).take 19,
      ascii "0", [], by decide +kernel, by decide +kernel, by decide +kernel, rfl⟩

/-- Each amount has its own hash. -/
theorem verifyMolecularHash_moved : verifyMolecularHash amountHash (moved "5" 0) = .ok true ∧
    verifyMolecularHash amountHash (moved "6" 1) = .ok true := by
  have hnil (digest : UInt8) (hdigest : digest = 0 ∨ digest = 1) : Atom.base17 (List.replicate 32 digest) ≠ [] := by
    obtain rfl | rfl := hdigest <;> decide +kernel
  have hother : shake256 amountHash (Atom.molecularSponge (movedAtoms "5")) 256 = List.replicate 32 0 :=
    shake256_unmarked distinguishable_movedAtoms.molecularSponge_ne 256
  have hmarked : shake256 amountHash (Atom.molecularSponge (movedAtoms "6")) 256 = List.replicate 32 1 :=
    shake256_marked _ 256
  constructor
  · rw [verifyMolecularHash, if_pos ⟨List.cons_ne_nil _ _, hnil 0 (.inl rfl)⟩, moved, moleculeOf,
      Atom.hashAtomsBase17_legacy _ (legacy_movedAtoms "5"), hother]
    exact congrArg Except.ok (decide_eq_true rfl)
  · rw [verifyMolecularHash, if_pos ⟨List.cons_ne_nil _ _, hnil 1 (.inr rfl)⟩, moved, moleculeOf,
      Atom.hashAtomsBase17_legacy _ (legacy_movedAtoms "6"), hmarked]
    exact congrArg Except.ok (decide_eq_true rfl)

theorem carriedOts_moved (amount : String) (digest : UInt8) : (moved amount digest).carriedOts = List.replicate 2048 48 := by
  have hfragments : (moved amount digest).carriedOts = List.replicate 1024 48 ++ (List.replicate 1024 48 ++ []) := rfl
  rw [hfragments, List.append_nil, List.replicate_append_replicate]

theorem signer_moved (amount : String) (digest : UInt8) :
    (moved amount digest).atoms.head?.map (·.walletAddress) = some (toHexString (List.replicate 32 0)) := rfl

/-- One signature is accepted for both, as every chain ends alike. -/
theorem verifyOts_moved {amount : String} {digest : UInt8}
    (hsignable : WalletCrypto.isSignableHash (Atom.base17 (List.replicate 32 digest)) = true) :
    verifyOts amountHash (moved amount digest) = .ok () := by
  have hdecode : decodeOts (moved amount digest).carriedOts = .ok (List.replicate 2048 48) := by
    rw [carriedOts_moved, decodeOts, if_pos (.inl List.length_replicate)]
  have haddress (ends : ByteString) :
      shake256Hex amountHash (shake256Hex amountHash ends 8192) 256 = toHexString (List.replicate 32 0) := by
    have hne : shake256Hex amountHash ends 8192 ≠ Atom.molecularSponge (movedAtoms "6") := by
      intro heq
      have hlength := congrArg List.length heq
      rw [length_shake256Hex] at hlength
      exact absurd hlength (by decide +kernel)
    have hdigest := shake256_unmarked hne 256
    exact congrArg toHexString hdigest
  exact verifyOts_of_decoded rfl hsignable hdecode (haddress _)

/-- A transfer of five that is changed to six: refused under the hash of five, and accepted with the same signature
under its own only as the function is so weak. -/
theorem legacyHash_binds_amount :
    Atom.molecularSponge (movedAtoms "5") ≠ Atom.molecularSponge (movedAtoms "6") ∧
      verify amountHash (moved "6" 0) ≠ .ok true ∧ verify amountHash (moved "6" 1) = .ok true ∧
      ∃ ots, decodeOts (moved "5" 0).carriedOts = .ok ots ∧
        SharedSignature amountHash (moved "5" 0).molecularHash (moved "6" 1).molecularHash ots := by
  obtain ⟨hhash₁, hhash₂⟩ := verifyMolecularHash_moved
  have hdigests : shake256 amountHash (Atom.molecularSponge (movedAtoms "5")) 256 ≠
      shake256 amountHash (Atom.molecularSponge (movedAtoms "6")) 256 := by
    rw [amountHash, shake256_unmarked distinguishable_movedAtoms.molecularSponge_ne, shake256_marked]
    decide
  have hots₁ : verifyOts amountHash (moved "5" 0) = .ok () := verifyOts_moved (by decide +kernel)
  have hverify₂ : verify amountHash (moved "6" 1) = .ok true := by
    have hvalid : tokenValid (moved "6" 1) = true := by decide +kernel
    rw [verify, hhash₂, hvalid, verifyOts_moved (by decide +kernel)]
    rfl
  obtain ⟨hsponge, hsame⟩ := legacyHash_binds amountHash (moved "5" 0) (moved "6" 0) (legacy_movedAtoms "5")
    (legacy_movedAtoms "6") distinguishable_movedAtoms
  obtain ⟨-, hown⟩ := legacyHash_binds amountHash (moved "5" 0) (moved "6" 1) (legacy_movedAtoms "5")
    (legacy_movedAtoms "6") distinguishable_movedAtoms
  have hcarried : (moved "6" 1).carriedOts = (moved "5" 0).carriedOts :=
    (carriedOts_moved "6" 1).trans (carriedOts_moved "5" 0).symm
  obtain ⟨-, hshared⟩ := (hown (absurd · hdigests) hhash₁).2 hcarried
    ((signer_moved "6" 1).trans (signer_moved "5" 0).symm) hots₁ hverify₂
  exact ⟨hsponge, ((hsame (absurd · hdigests) hhash₁).1 rfl).2, hverify₂, hshared⟩

end Example

/-- A digit that moves from the value to the token leaves no trace, and each hash is accepted for both. -/
theorem molecularSponge_shifted :
    Atom.content (valueAtom "V" "A" "1") ≠ Atom.content (valueAtom "V" "A1" "") ∧
      Atom.molecularSponge [valueAtom "V" "A" "1"] = Atom.molecularSponge [valueAtom "V" "A1" ""] ∧
      ∀ H hash, verifyMolecularHash H { moleculeOf [valueAtom "V" "A" "1"] with molecularHash := hash } =
        verifyMolecularHash H { moleculeOf [valueAtom "V" "A1" ""] with molecularHash := hash } := by
  have hsponge : Atom.molecularSponge [valueAtom "V" "A" "1"] = Atom.molecularSponge [valueAtom "V" "A1" ""] := by
    decide
  refine ⟨by decide, hsponge, fun H hash => ?_⟩
  have hhash : Atom.hashAtomsBase17 H [valueAtom "V" "A" "1"] = Atom.hashAtomsBase17 H [valueAtom "V" "A1" ""] := by
    rw [Atom.hashAtomsBase17_legacy H (by simp [valueAtom]), Atom.hashAtomsBase17_legacy H (by simp [valueAtom]),
      hsponge]
  simp [verifyMolecularHash, moleculeOf, hhash]

end Molecule

end KnishIO
