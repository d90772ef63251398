import KnishIO.Molecule.SignVerify

open ByteString

namespace KnishIO

/-- The functions of the KnishIO Crypto Core that the bridge calls; `none` stands for an error code. `chainsHex` is
given the joined chunks, the counts and the number of chunks. -/
structure Kcore where
  wotsAddress : ByteString → Option ByteString
  wotsAddressV2 : ByteString → Option ByteString
  chainsHex : ByteString → List Int → Nat → Option ByteString

namespace KcoreBridge

def isLowerHex (s : ByteString) (length : Nat) : Bool := s.length = length && s.all isHexLower

/-- The WOTS+ address of a 2048-hex key; `none` where the key is ineligible or kcore fails. -/
def wotsAddress (K : Kcore) (key : ByteString) : Option ByteString :=
  if isLowerHex key 2048 then K.wotsAddress key else none

/-- The WOTS+ address of an 8192-hex key. -/
def wotsAddressV2 (K : Kcore) (key : ByteString) : Option ByteString :=
  if isLowerHex key 8192 then K.wotsAddressV2 key else none

/-- 1..64 chunks of 128 lowercase digits, each with a count in 0..64. -/
def eligible (chunks : List ByteString) (counts : List Int) : Bool :=
  1 ≤ chunks.length && chunks.length ≤ 64 && counts.length = chunks.length &&
    (chunks.zip counts).all fun p => isLowerHex p.1 128 && 0 ≤ p.2 && p.2 ≤ 64

/-- Advances each chunk as often as its count says. -/
def chainsHex (K : Kcore) (chunks : List ByteString) (counts : List Int) : Option ByteString :=
  if eligible chunks counts then K.chainsHex chunks.flatten counts chunks.length else none

end KcoreBridge

section Build

variable (K : Kcore) (H : Shake256)

/-- `Wallet::generateWalletAddress` of a build with kcore. -/
def Wallet.generateWalletAddressKcore (key : ByteString) : ByteString :=
  let viaKcore := (if key.length = 2048 then KcoreBridge.wotsAddress K key else none).or
    (if key.length = 8192 then KcoreBridge.wotsAddressV2 K key else none)
  viaKcore.getD (generateWalletAddress H key)

namespace Molecule

/-- The chain loop: kcore where it is given as many counts as there are chunks, otherwise (or when it fails) the plain
loop. -/
def chainKcore (counts : List Int) (chunks : List ByteString) (plain : ByteString) : ByteString :=
  let chained := if chunks.length ≤ counts.length then KcoreBridge.chainsHex K chunks (counts.take chunks.length) else none
  chained.getD plain

/-- The signature of a hash by a key in a build with kcore. -/
def oneTimeSignatureKcore (key molecularHash : ByteString) (compressed : Bool) : Throws ByteString :=
  let keyChunks := chunkSubstr key 128
  let normalizedHash := normalize (enumerate molecularHash)
  let signatureFragments := chainKcore K (normalizedHash.map fun n => 8 - n) keyChunks
    (signChunks H normalizedHash keyChunks).flatten
  if compressed then hexToBase64 signatureFragments else .ok signatureFragments

/-- `Molecule::sign` of a build with kcore. -/
def signKcore (secret : ByteString) (anonymous compressed : Bool) : Act Exception Molecule ByteString := do
  match (← get).atoms with
  | [] => throw .atomsNotFound
  | front :: rest =>
    if !anonymous then modify fun m => { m with bundle := Wallet.generateBundleHash H secret }
    let molecularHash ← Act.ofExcept (Atom.hashAtomsBase17 H (front :: rest))
    modify fun m => { m with molecularHash }
    if !WalletCrypto.isSignableHash molecularHash then
      throw (.signatureMalformed "Molecular hash is not signable")
    let key ← Act.ofExcept (Wallet.generateWalletKey H secret front.token front.position (← get).signingOtsVersion)
    let signatureFragments ← Act.ofExcept (oneTimeSignatureKcore K H key molecularHash compressed)
    let count := (front :: rest).length
    let chunkedSignature := chunkSubstr signatureFragments ((signatureFragments.length + count - 1) / count)
    modify fun m => { m with atoms := assignFragments m.atoms chunkedSignature }
    return ((front :: rest).take chunkedSignature.length).getLast?.elim [] (·.position)

/-- The address a decoded signature belongs to in a build with kcore. -/
def signingAddressKcore (molecularHash ots : ByteString) : ByteString :=
  let otsChunks := chunkSubstr ots 128
  let normalizedHash := normalize (enumerate molecularHash)
  let keyFragments := chainKcore K (normalizedHash.map fun n => 8 + n) otsChunks
    (verifyChunks H normalizedHash otsChunks).flatten
  shake256Hex H (shake256Hex H keyFragments 8192) 256

/-- `Molecule::verifyOts` of a build with kcore. -/
def verifyOtsKcore (m : Molecule) : Throws Unit :=
  match m.atoms with
  | [] => .error .atomsNotFound
  | front :: _ =>
    if !WalletCrypto.isSignableHash m.molecularHash then .error .signatureMalformed
    else
      match decodeOts m.carriedOts with
      | .error e => .error e
      | .ok ots =>
        if signingAddressKcore K H m.molecularHash ots ≠ front.walletAddress then .error .signatureMismatch else .ok ()

end Molecule

end Build

/-- On what it is handed, kcore fails or computes what the plain loops compute. -/
structure Kcore.Agrees (K : Kcore) (H : Shake256) : Prop where
  wotsAddress : ∀ key, KcoreBridge.isLowerHex key 2048 = true → ∀ address, K.wotsAddress key = some address →
    address = Wallet.generateWalletAddress H key
  wotsAddressV2 : ∀ key, KcoreBridge.isLowerHex key 8192 = true → ∀ address, K.wotsAddressV2 key = some address →
    address = Wallet.generateWalletAddress H key
  chainsHex : ∀ chunks counts, KcoreBridge.eligible chunks counts = true → ∀ joined,
    K.chainsHex chunks.flatten counts chunks.length = some joined →
    joined = (HashChain.advance (Wallet.chainStep H) (counts.map Int.toNat) chunks).flatten

section Agreement

/-- Counts beyond the last value are not read. -/
theorem advance_take {α : Type} (f : α → α) (counts : List Nat) (values : List α) :
    HashChain.advance f (counts.take values.length) values = HashChain.advance f counts values := by
  induction values generalizing counts with
  | nil => simp [HashChain.advance]
  | cons x values ih =>
    cases counts with
    | nil => rfl
    | cons n counts => rw [List.length_cons, List.take_succ_cons, HashChain.advance_cons, HashChain.advance_cons, ih]

variable {K : Kcore} {H : Shake256} (hK : K.Agrees H)

include hK

theorem Wallet.generateWalletAddressKcore_eq (key : ByteString) :
    generateWalletAddressKcore K H key = generateWalletAddress H key := by
  have hone {address : ByteString} (h : KcoreBridge.wotsAddress K key = some address) :
      address = generateWalletAddress H key := by
    unfold KcoreBridge.wotsAddress at h
    split at h
    next hlower => exact hK.wotsAddress key hlower address h
    next => cases h
  have htwo {address : ByteString} (h : KcoreBridge.wotsAddressV2 K key = some address) :
      address = generateWalletAddress H key := by
    unfold KcoreBridge.wotsAddressV2 at h
    split at h
    next hlower => exact hK.wotsAddressV2 key hlower address h
    next => cases h
  unfold generateWalletAddressKcore
  cases hvia : (if key.length = 2048 then KcoreBridge.wotsAddress K key else none).or
      (if key.length = 8192 then KcoreBridge.wotsAddressV2 K key else none) with
  | none => rfl
  | some address =>
    obtain hfirst | ⟨-, hsecond⟩ := Option.or_eq_some_iff.mp hvia
    · split at hfirst
      · exact hone hfirst
      · cases hfirst
    · split at hsecond
      · exact htwo hsecond
      · cases hsecond

namespace Molecule

/-- kcore is handed the counts that the plain loop reads. -/
theorem chainKcore_eq (counts : List Int) (chunks : List ByteString) :
    chainKcore K counts chunks (HashChain.advance (Wallet.chainStep H) (counts.map Int.toNat) chunks).flatten =
      (HashChain.advance (Wallet.chainStep H) (counts.map Int.toNat) chunks).flatten := by
  unfold chainKcore KcoreBridge.chainsHex
  split
  next =>
    split
    next heligible =>
      cases hjoined : K.chainsHex chunks.flatten (counts.take chunks.length) chunks.length with
      | none => rfl
      | some joined =>
        have hsame := hK.chainsHex chunks _ heligible joined hjoined
        rw [List.map_take, advance_take] at hsame
        exact hsame
    next => rfl
  next => rfl

theorem oneTimeSignatureKcore_eq : oneTimeSignatureKcore K H = oneTimeSignature H := by
  funext key molecularHash compressed
  have hchains := chainKcore_eq hK ((normalize (enumerate molecularHash)).map fun n => 8 - n) (chunkSubstr key 128)
  rw [List.map_map] at hchains
  simp only [oneTimeSignatureKcore, oneTimeSignature, signChunks]
  rw [show (normalize (enumerate molecularHash)).map (fun n => (8 - n).toNat) =
    (normalize (enumerate molecularHash)).map (Int.toNat ∘ fun n => 8 - n) from rfl, hchains]

theorem signingAddressKcore_eq (molecularHash ots : ByteString) :
    signingAddressKcore K H molecularHash ots = signingAddress H molecularHash ots := by
  have hchains := chainKcore_eq hK ((normalize (enumerate molecularHash)).map fun n => 8 + n) (chunkSubstr ots 128)
  rw [List.map_map] at hchains
  simp only [signingAddressKcore, signingAddress, Wallet.addressOfEnds, verifyChunks]
  rw [show (normalize (enumerate molecularHash)).map (fun n => (8 + n).toNat) =
    (normalize (enumerate molecularHash)).map (Int.toNat ∘ fun n => 8 + n) from rfl, hchains]

/-- A build with kcore gives the same addresses, molecules and verdicts as one without. -/
theorem kcore_build_agrees :
    (∀ key, Wallet.generateWalletAddressKcore K H key = Wallet.generateWalletAddress H key) ∧
      (∀ secret anonymous compressed m,
        (signKcore K H secret anonymous compressed).exec m = (sign H secret anonymous compressed).exec m) ∧
      ∀ m, verifyOtsKcore K H m = verifyOts H m := by
  refine ⟨Wallet.generateWalletAddressKcore_eq hK, fun secret anonymous compressed m => ?_, fun m => ?_⟩
  · rw [signKcore, oneTimeSignatureKcore_eq hK]
    rfl
  · unfold verifyOtsKcore verifyOts
    cases m.atoms with
    | nil => rfl
    | cons front rest =>
      cases decodeOts m.carriedOts with
      | error e => rfl
      | ok ots => simp only [signingAddressKcore_eq hK]

end Molecule

end Agreement

section Example

/-- Eligible chunks are found again in their text. -/
theorem chunkSubstr_flatten_of_eligible {chunks : List ByteString} {counts : List Int}
    (h : KcoreBridge.eligible chunks counts = true) : chunkSubstr chunks.flatten 128 = chunks := by
  simp only [KcoreBridge.eligible, Bool.and_eq_true, decide_eq_true_eq, List.all_eq_true] at h
  obtain ⟨⟨-, hcounts⟩, hpairs⟩ := h
  refine blocks_flatten (by norm_num) fun chunk hchunk => ?_
  -- every chunk is paired with a count
  obtain ⟨i, hi, rfl⟩ := List.getElem_of_mem hchunk
  have hpair : (chunks[i], counts[i]) ∈ chunks.zip counts := by
    rw [List.mem_iff_getElem]
    exact ⟨i, by simp [hcounts, hi], by simp⟩
  have hlower := (hpairs _ hpair).1.1
  simp only [KcoreBridge.isLowerHex, Bool.and_eq_true, decide_eq_true_eq] at hlower
  exact hlower.1

/-- A kcore that computes addresses of version 1 and chains, and fails on every key of version 2. -/
def sampleKcore (H : Shake256) : Kcore where
  wotsAddress key := some (Wallet.generateWalletAddress H key)
  wotsAddressV2 _ := none
  chainsHex buffer counts _ :=
    some (HashChain.advance (Wallet.chainStep H) (counts.map Int.toNat) (chunkSubstr buffer 128)).flatten

theorem sampleKcore_agrees (H : Shake256) : (sampleKcore H).Agrees H where
  wotsAddress _ _ _ h := (Option.some.inj h).symm
  wotsAddressV2 _ _ _ h := nomatch h
  chainsHex chunks counts heligible joined h := by
    rw [← Option.some.inj h, chunkSubstr_flatten_of_eligible heligible]

namespace Molecule

theorem kcore_build_agrees_sample :
    Wallet.generateWalletAddressKcore (sampleKcore (.constant 0)) (.constant 0) (List.replicate 2048 48) =
        Wallet.generateWalletAddress (.constant 0) (List.replicate 2048 48) ∧
      (signKcore (sampleKcore (.constant 0)) (.constant 0) (ascii "5ec7e7") false true).exec
          { atoms := [unsignedAtom], createdAt := 0 } =
        (sign (.constant 0) (ascii "5ec7e7") false true).exec { atoms := [unsignedAtom], createdAt := 0 } ∧
      verifyOtsKcore (sampleKcore (.constant 0)) (.constant 0) { atoms := [unsignedAtom], createdAt := 0 } =
        verifyOts (.constant 0) { atoms := [unsignedAtom], createdAt := 0 } :=
  have ⟨haddress, hsign, hverify⟩ := kcore_build_agrees (sampleKcore_agrees (.constant 0))
  ⟨haddress _, hsign _ _ _ _, hverify _⟩

end Molecule

end Example

end KnishIO
