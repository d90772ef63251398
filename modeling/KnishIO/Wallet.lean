import KnishIO.Atom
import KnishIO.Library.HashChain
import KnishIO.Utility.Base64

open ByteString

namespace KnishIO

/-- A stackable unit; the metas stand in key order, as in a `std::map`. -/
structure TokenUnit where
  id : ByteString
  name : ByteString
  metas : List (ByteString × ByteString) := []
  deriving DecidableEq, Repr

/-- ML-KEM key generation: the public key for a parameter set (768 or 1024) and a 64-byte seed,
absent when the primitive reports an error. -/
structure MlKem where
  publicKey : Int → ByteString → Option ByteString

structure Wallet where
  position : ByteString
  token : ByteString
  key : ByteString
  address : ByteString
  balance : ByteString := []
  batchId : ByteString := []
  bundle : ByteString
  tokenUnits : List TokenUnit := []
  mlkemPublicKey : ByteString
  mlkemParameterSet : Int
  otsVersion : Int
  deriving DecidableEq, Repr

namespace Wallet

def generateBundleHash (H : Shake256) (secret : ByteString) : ByteString := shake256Hex H secret 256

def checkedOtsVersion (otsVersion : Int) : Throws Int :=
  if otsVersion ≠ 1 ∧ otsVersion ≠ 2 then
    .error (.invalidArgument (ascii "KnishIO: unsupported OTS version " ++ Decimal.ofInt otsVersion ++
      ascii "; expected 1 or 2."))
  else .ok otsVersion

/-- A non-hexadecimal secret or position is replaced by its digest. -/
def hexOrDigest (H : Shake256) (s : ByteString) (bits : Nat) : ByteString :=
  if WalletCrypto.isValidHex s then s else shake256Hex H s bits

/-- The input of the intermediate key sponge; version 2 tags and delimits it. -/
def keySponge (indexedKeyHex token : ByteString) (version : Int) : ByteString :=
  if version = 2 then ascii "KnishIO-OTS-v2|" ++ indexedKeyHex ++ ascii "|" ++ token
  else indexedKeyHex ++ token

/-- The OTS key: 2048 hexadecimal digits at version 1, 8192 at version 2. -/
def generateWalletKey (H : Shake256) (secret token position : ByteString) (otsVersion : Int) : Throws ByteString :=
  match checkedOtsVersion otsVersion with
  | .error e => .error e
  | .ok version =>
    if secret = [] then .error (.invalidArgument (ascii "Wallet::generateWalletKey() - Secret is required!"))
    else if position = [] then .error (.invalidArgument (ascii "Wallet::generateWalletKey() - Position is required!"))
    else
      match WalletCrypto.constantTimeHexAdd (hexOrDigest H secret 1024) (hexOrDigest H position 256) with
      | .error e => .error (.runtimeError (ascii "Wallet key generation failed: " ++ e.what))
      | .ok indexedKeyHex =>
        .ok (shake256Hex H (shake256Hex H (keySponge indexedKeyHex token version) 8192)
          (if version = 2 then 32768 else 8192))

/-- One step of a signature chain. -/
def chainStep (H : Shake256) (chunk : ByteString) : ByteString := shake256Hex H chunk 512

/-- The address a list of chain ends belongs to. -/
def addressOfEnds (H : Shake256) (ends : List ByteString) : ByteString :=
  shake256Hex H (shake256Hex H ends.flatten 8192) 256

def generateWalletAddress (H : Shake256) (key : ByteString) : ByteString :=
  addressOfEnds H ((chunkSubstr key 128).map (chainStep H)^[16])

/-- The address of the wallet at a token, a position and a version. -/
def addressAt (H : Shake256) (secret token position : ByteString) (otsVersion : Int) : Throws ByteString :=
  (generateWalletKey H secret token position otsVersion).map (generateWalletAddress H)

/-- `std::tolower` in the C locale. -/
def toLower (c : UInt8) : UInt8 := if 65 ≤ c ∧ c ≤ 90 then c + 32 else c

def detectOtsVersion (H : Shake256) (secret token position address : ByteString) (preferred : Int) :
    Throws (Option Int) := do
  let first ← checkedOtsVersion preferred
  if secret = [] ∨ position = [] ∨ address = [] then return none
  let wanted := address.map toLower
  let second := if first = 1 then 2 else 1
  if (← addressAt H secret token position first) = wanted then return some first
  if (← addressAt H secret token position second) = wanted then return some second
  return none

/-- A keypair of the wallet's key at a parameter set; the seed is `generateSecret(key, 128)` read
back from its hexadecimal form. -/
def deriveMlKemKeypair (H : Shake256) (K : MlKem) (key : ByteString) (parameterSet : Int) : Throws ByteString :=
  if parameterSet ≠ 768 ∧ parameterSet ≠ 1024 then
    .error (.invalidArgument (ascii "KnishIO: unsupported ML-KEM parameter set " ++ Decimal.ofInt parameterSet ++
      ascii "; expected 1024 or 768."))
  else
    match K.publicKey parameterSet (shake256 H key 512) with
    | some publicKey => .ok publicKey
    | none => .error (.runtimeError (ascii "Failed to generate ML-KEM keys"))

/-- The constructor at a given position. A caller that passes no position draws one at random first,
see `drawn` in the client. The libsodium key pair it also makes is used by no modelled function. -/
def new (H : Shake256) (K : MlKem) (secret token position : ByteString) (mlkemParameterSet otsVersion : Int) :
    Throws Wallet := do
  let version ← checkedOtsVersion otsVersion
  let key ← generateWalletKey H secret token position version
  let mlkemPublicKey ← deriveMlKemKeypair H K key mlkemParameterSet
  return {
    position, token, key
    address := generateWalletAddress H key
    bundle := generateBundleHash H secret
    mlkemPublicKey, mlkemParameterSet
    otsVersion := version }

section TokenUnits

/-- One unit in the wire form `[id, name, metas]`. -/
def unitTriple (u : TokenUnit) : Json :=
  .arr [.str u.id, .str u.name, Json.object (u.metas.map fun m => (m.1, Json.str m.2))]

/-- `getTokenUnitsJson` of a wallet with these units. -/
def unitsJson (units : List TokenUnit) : Throws ByteString := dumpJson (.arr (units.map unitTriple))

def idInList (ids : List ByteString) (u : TokenUnit) : Bool := u.id ∈ ids

/-- The sent units stay on the wallet and go to the recipient, the kept ones go to the remainder;
the result is the source, the remainder and the recipient. -/
def splitUnits (w : Wallet) (units : List ByteString) (remainderWallet : Wallet) (recipientWallet : Option Wallet) :
    Wallet × Wallet × Option Wallet :=
  if units = [] then (w, remainderWallet, recipientWallet)
  else
    let sent := w.tokenUnits.filter (idInList units)
    let kept := w.tokenUnits.filter fun u => !idInList units u
    ({ w with tokenUnits := sent }, { remainderWallet with tokenUnits := kept },
      recipientWallet.map fun r => { r with tokenUnits := sent })

/-- Every recipient takes its own subset of the source's units. -/
def splitUnitsMulti (w : Wallet) (recipientUnitLists : List (List ByteString)) (recipientWallets : List Wallet)
    (remainderWallet : Wallet) : Wallet × List Wallet × Wallet :=
  if recipientUnitLists.all (· = []) then (w, recipientWallets, remainderWallet)
  else
    let isSent (u : TokenUnit) : Bool := recipientUnitLists.any fun ids => idInList ids u
    let recipients := recipientWallets.zipIdx.map fun (r, i) =>
      { r with tokenUnits := w.tokenUnits.filter (idInList (recipientUnitLists.getD i [])) }
    ({ w with tokenUnits := w.tokenUnits.filter isSent }, recipients,
      { remainderWallet with tokenUnits := w.tokenUnits.filter fun u => !isSent u })

/-- Splitting changes nothing but the units of the source. -/
theorem splitUnits_source (w : Wallet) (units : List ByteString) (remainderWallet : Wallet)
    (recipientWallet : Option Wallet) :
    ∃ tokenUnits, (splitUnits w units remainderWallet recipientWallet).1 = { w with tokenUnits } := by
  unfold splitUnits
  split
  · exact ⟨w.tokenUnits, rfl⟩
  · exact ⟨_, rfl⟩

theorem splitUnitsMulti_source (w : Wallet) (recipientUnitLists : List (List ByteString))
    (recipientWallets : List Wallet) (remainderWallet : Wallet) :
    ∃ tokenUnits, (splitUnitsMulti w recipientUnitLists recipientWallets remainderWallet).1 = { w with tokenUnits } := by
  unfold splitUnitsMulti
  split
  · exact ⟨w.tokenUnits, rfl⟩
  · exact ⟨_, rfl⟩

end TokenUnits

section Keys

theorem checkedOtsVersion_ok {v : Int} (hv : v = 1 ∨ v = 2) : checkedOtsVersion v = .ok v :=
  if_neg (by omega)

theorem checkedOtsVersion_eq {otsVersion version : Int} (h : checkedOtsVersion otsVersion = .ok version) :
    otsVersion = version := by
  unfold checkedOtsVersion at h
  split at h
  · cases h
  · exact Except.ok.inj h

theorem isValidHex_hexOrDigest (H : Shake256) (s : ByteString) (bits : Nat) (hbits : 8 ≤ bits) :
    WalletCrypto.isValidHex (hexOrDigest H s bits) = true := by
  unfold hexOrDigest
  split
  · assumption
  · exact WalletCrypto.isValidHex_shake256Hex H s hbits

/-- With a secret, a position and a supported version the key is a digest of the sponge input. -/
theorem generateWalletKey_eq (H : Shake256) {secret position : ByteString} (token : ByteString) {v : Int}
    (hv : v = 1 ∨ v = 2) (hsecret : secret ≠ []) (hposition : position ≠ []) :
    ∃ indexedKeyHex, generateWalletKey H secret token position v =
      .ok (shake256Hex H (shake256Hex H (keySponge indexedKeyHex token v) 8192) (if v = 2 then 32768 else 8192)) := by
  obtain ⟨sum, hsum⟩ := WalletCrypto.constantTimeHexAdd_ok (isValidHex_hexOrDigest H secret 1024 (by norm_num))
    (isValidHex_hexOrDigest H position 256 (by norm_num))
  exact ⟨sum, by simp only [generateWalletKey, checkedOtsVersion_ok hv, if_neg hsecret, if_neg hposition, hsum]⟩

/-- What a successful key generation was given. -/
theorem generateWalletKey_inv {H : Shake256} {secret token position key : ByteString} {v : Int}
    (hkey : generateWalletKey H secret token position v = .ok key) :
    (v = 1 ∨ v = 2) ∧ secret ≠ [] ∧ position ≠ [] := by
  unfold generateWalletKey checkedOtsVersion at hkey
  split_ifs at hkey with hv hsecret hposition
  exact ⟨by omega, hsecret, hposition⟩

/-- Every key is the hexadecimal form of a digest of 1024 or 4096 bytes. -/
theorem generateWalletKey_form {H : Shake256} {secret token position key : ByteString} {v : Int}
    (hkey : generateWalletKey H secret token position v = .ok key) :
    key.length = (if v = 2 then 8192 else 2048) ∧ ∀ c ∈ key, isHexLower c = true := by
  obtain ⟨hv, hsecret, hposition⟩ := generateWalletKey_inv hkey
  obtain ⟨sum, hsum⟩ := generateWalletKey_eq H token hv hsecret hposition
  rw [hsum] at hkey
  obtain rfl := Except.ok.inj hkey
  refine ⟨?_, fun c hc => isHexLower_shake256Hex hc⟩
  rw [length_shake256Hex]
  rcases hv with rfl | rfl <;> rfl

/-- What the constructor makes. -/
theorem new_ok {H : Shake256} {K : MlKem} {secret token position : ByteString} {mlkemParameterSet otsVersion : Int}
    {wallet : Wallet} (h : new H K secret token position mlkemParameterSet otsVersion = .ok wallet) :
    ∃ key mlkemPublicKey, generateWalletKey H secret token position otsVersion = .ok key ∧
      deriveMlKemKeypair H K key mlkemParameterSet = .ok mlkemPublicKey ∧
      wallet = {
        position, token, key
        address := generateWalletAddress H key
        bundle := generateBundleHash H secret
        mlkemPublicKey, mlkemParameterSet, otsVersion } := by
  unfold new at h
  simp only [bind, Except.bind, pure, Except.pure] at h
  cases hversion : checkedOtsVersion otsVersion with
  | error e => simp [hversion] at h
  | ok version =>
    obtain rfl := checkedOtsVersion_eq hversion
    cases hkey : generateWalletKey H secret token position otsVersion with
    | error e => simp [hversion, hkey] at h
    | ok key =>
      cases hmlkem : deriveMlKemKeypair H K key mlkemParameterSet with
      | error e => simp [hversion, hkey, hmlkem] at h
      | ok mlkemPublicKey =>
        simp only [hversion, hkey, hmlkem, Except.ok.injEq] at h
        exact ⟨key, mlkemPublicKey, rfl, hmlkem, h.symm⟩

end Keys

end Wallet

end KnishIO
