import KnishIO.Wallet
import KnishIO.Library.Act
import KnishIO.Atom.Base17

open ByteString

namespace KnishIO

structure Molecule where
  molecularHash : ByteString := []
  cellSlug : ByteString := []
  bundle : ByteString := []
  status : ByteString := []
  atoms : List Atom := []
  createdAt : Int64
  sourceWallet : Option Wallet := none
  remainderWallet : Option Wallet := none
  deriving DecidableEq, Repr

namespace Molecule

section Digits

/-- The value of one symbol; other characters are skipped. -/
def symbolValue (c : UInt8) : Option Int :=
  if 48 ≤ c ∧ c ≤ 57 then some (c.toNat - 48 - 8)
  else if 97 ≤ c ∧ c ≤ 103 then some (c.toNat - 87 - 8)
  else none

def enumerate (hash : ByteString) : List Int := hash.filterMap symbolValue

/-- A symbol that has not reached the end of its range. -/
def movable (up : Bool) (c : Int) : Bool := if up then c < 8 else c > -8

def shift (up : Bool) (n : Int) : Int := if up then n + 1 else n - 1

/-- One pass over the symbols, towards 8 or towards -8, until the sum is zero. -/
def normalizePass (up : Bool) : Int → List Int → List Int × Int
  | total, [] => ([], total)
  | total, c :: cs =>
    if movable up c then
      if shift up total = 0 then (shift up c :: cs, 0)
      else
        let r := normalizePass up (shift up total) cs
        (shift up c :: r.1, r.2)
    else
      let r := normalizePass up total cs
      (c :: r.1, r.2)

/-- Passes until the sum is zero; each pass moves the sum, so its magnitude is fuel enough. -/
def normalizeLoop (up : Bool) : Nat → Int → List Int → List Int
  | 0, _, cs => cs
  | fuel + 1, total, cs =>
    if total = 0 then cs
    else
      let r := normalizePass up total cs
      normalizeLoop up fuel r.2 r.1

def normalize (mappedHashArray : List Int) : List Int :=
  let total := mappedHashArray.sum
  normalizeLoop (total < 0) total.natAbs total mappedHashArray

end Digits

section Signature

/-- The chunks of a signature: chunk `i` of the key hashed `8 - n[i]` times. -/
def signChunks (H : Shake256) (normalizedHash : List Int) (keyChunks : List ByteString) : List ByteString :=
  HashChain.advance (Wallet.chainStep H) (normalizedHash.map fun n => (8 - n).toNat) keyChunks

/-- The chain ends a signature leads to: chunk `i` hashed `8 + n[i]` times. -/
def verifyChunks (H : Shake256) (normalizedHash : List Int) (otsChunks : List ByteString) : List ByteString :=
  HashChain.advance (Wallet.chainStep H) (normalizedHash.map fun n => (8 + n).toNat) otsChunks

/-- The fragments written to the atoms in order. There are never more fragments than atoms. -/
def assignFragments : List Atom → List ByteString → List Atom
  | atom :: atoms, fragment :: fragments => { atom with otsFragment := fragment } :: assignFragments atoms fragments
  | atoms, _ => atoms

def signingOtsVersion (m : Molecule) : Int :=
  match m.sourceWallet with
  | some w => w.otsVersion
  | none => 1

/-- The signature of a hash by a key, compressed to base64 on request. -/
def oneTimeSignature (H : Shake256) (key molecularHash : ByteString) (compressed : Bool) : Throws ByteString :=
  let keyChunks := chunkSubstr key 128
  let normalizedHash := normalize (enumerate molecularHash)
  let signatureFragments := (signChunks H normalizedHash keyChunks).flatten
  if compressed then hexToBase64 signatureFragments else .ok signatureFragments

/-- Signs the molecule and returns the position of the last atom that received a fragment. -/
def sign (H : Shake256) (secret : ByteString) (anonymous : Bool := false) (compressed : Bool := true) :
    Act Exception Molecule ByteString := do
  match (← get).atoms with
  | [] => throw .atomsNotFound
  | front :: rest =>
    if !anonymous then modify fun m => { m with bundle := Wallet.generateBundleHash H secret }
    let molecularHash ← Act.ofExcept (Atom.hashAtomsBase17 H (front :: rest))
    modify fun m => { m with molecularHash }
    if !WalletCrypto.isSignableHash molecularHash then
      throw (.signatureMalformed "Molecular hash is not signable")
    let key ← Act.ofExcept (Wallet.generateWalletKey H secret front.token front.position (← get).signingOtsVersion)
    let signatureFragments ← Act.ofExcept (oneTimeSignature H key molecularHash compressed)
    let count := (front :: rest).length
    let chunkedSignature := chunkSubstr signatureFragments ((signatureFragments.length + count - 1) / count)
    modify fun m => { m with atoms := assignFragments m.atoms chunkedSignature }
    return ((front :: rest).take chunkedSignature.length).getLast?.elim [] (·.position)

end Signature

section Verification

/-- The signature the atoms carry. -/
def carriedOts (m : Molecule) : ByteString := m.atoms.flatMap (·.otsFragment)

/-- A signature of 2048 or 8192 characters is taken as hexadecimal; anything else must be strict
base64 of that many digits. -/
def decodeOts (ots : ByteString) : Throws ByteString :=
  if ots.length = 2048 ∨ ots.length = 8192 then .ok ots
  else if !isStrictBase64 ots then .error .signatureMalformed
  else if (base64ToHex ots).length = 2048 ∨ (base64ToHex ots).length = 8192 then .ok (base64ToHex ots)
  else .error .signatureMalformed

/-- The address a decoded signature of a hash belongs to. -/
def signingAddress (H : Shake256) (molecularHash ots : ByteString) : ByteString :=
  Wallet.addressOfEnds H (verifyChunks H (normalize (enumerate molecularHash)) (chunkSubstr ots 128))

def verifyOts (H : Shake256) (m : Molecule) : Throws Unit :=
  match m.atoms with
  | [] => .error .atomsNotFound
  | front :: _ =>
    if !WalletCrypto.isSignableHash m.molecularHash then .error .signatureMalformed
    else
      match decodeOts m.carriedOts with
      | .error e => .error e
      | .ok ots =>
        if signingAddress H m.molecularHash ots ≠ front.walletAddress then .error .signatureMismatch else .ok ()

/-- A decoded signature that leads to the first atom's address is accepted. -/
theorem verifyOts_of_decoded {H : Shake256} {m : Molecule} {front : Atom} {rest : List Atom} {ots : ByteString}
    (hatoms : m.atoms = front :: rest) (hsignable : WalletCrypto.isSignableHash m.molecularHash = true)
    (hdecode : decodeOts m.carriedOts = .ok ots) (haddress : signingAddress H m.molecularHash ots = front.walletAddress) :
    verifyOts H m = .ok () := by
  rw [verifyOts, hatoms]
  dsimp only
  rw [hdecode]
  simp [hsignable, haddress]

def verifyMolecularHash (H : Shake256) (m : Molecule) : Throws Bool :=
  if m.atoms ≠ [] ∧ m.molecularHash ≠ [] then
    (Atom.hashAtomsBase17 H m.atoms).map fun atomicHash => atomicHash = m.molecularHash
  else .ok false

end Verification

end Molecule

end KnishIO
