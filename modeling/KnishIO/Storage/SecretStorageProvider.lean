import KnishIO.Library.Act
import KnishIO.Library.StdMap
import KnishIO.Storage.SecretEnvelope

open ByteString

namespace KnishIO

structure StorageOptions where
  label : Option ByteString := none
  passphrase : Option ByteString := none
  recoveryPassphrase : Option ByteString := none
  allowUnrecoverable : Bool := false
  deriving DecidableEq, Repr

/-- `seal(..).toString()`. -/
def sealText (C : OpenSsl) (call : Nat) (secret passphrase : ByteString) (metadata : SecretStorageMetadata) :
    Throws ByteString := do
  let payload ← sealSecret C call secret passphrase metadata
  payload.text

/-- `open(fromString(raw), passphrase)`. -/
def openText (C : OpenSsl) (F : Json.FloatText) (raw passphrase : ByteString) : Throws ByteString := do
  let payload ← EncryptedSecretPayload.fromString F raw
  openPayload C payload passphrase

namespace AesGcmSecretStorageProvider

/-- The provider with its backend: the cryptography, the default passphrase, and the exceptions of the backend's
writes and removals, by the number of the call. -/
structure Setting where
  crypto : OpenSsl
  floatText : Json.FloatText
  defaultPassphrase : Option ByteString := none
  fails : Nat → Option Exception := fun _ => none

/-- The items of the backend, the number of its writes and removals and of the `RAND_bytes` calls so far. -/
structure State where
  items : StdMap ByteString := {}
  calls : Nat := 0
  randCalls : Nat := 0

def keyPrefix : ByteString := ascii "knishio:secret:"

def recoveryKeyPrefix : ByteString := ascii "knishio:recovery:"

abbrev Run := Act Exception State

variable (S : Setting)

/-- A write or a removal, which takes place in one piece or throws. -/
def mutateItems (f : StdMap ByteString → StdMap ByteString) : Run Unit := do
  let s ← get
  match S.fails s.calls with
  | some e => do
    set { s with calls := s.calls + 1 }
    throw e
  | none => set { s with items := f s.items, calls := s.calls + 1 }

def setItem (key value : ByteString) : Run Unit := mutateItems S (·.set key value)

def removeItem (key : ByteString) : Run Bool := do
  let present := (← get).items.contains key
  mutateItems S (·.erase key)
  return present

/-- The text of an envelope under fresh random bytes. -/
def sealItem (secret passphrase : ByteString) (metadata : SecretStorageMetadata) : Run ByteString := do
  let s ← get
  set { s with randCalls := s.randCalls + 2 }
  Act.ofExcept (sealText S.crypto s.randCalls secret passphrase metadata)

def metadata (bundleHash : ByteString) (options : StorageOptions) (now : Int64) : SecretStorageMetadata :=
  { bundleHash, label := options.label, createdAt := now, hardwareBacked := false, providerType := ascii "aes-gcm" }

/-- The passphrase of the call or else of the provider; empty where there is none. -/
def passphrase (options : StorageOptions) : ByteString := (options.passphrase.or S.defaultPassphrase).getD []

/-- The checks of `storeSecret`. -/
def checked (bundleHash secret : ByteString) (options : StorageOptions) : Throws Unit :=
  if bundleHash = [] then .error (.secretStorage (ascii "Bundle hash cannot be empty"))
  else if secret = [] then .error (.secretStorage (ascii "Secret cannot be empty"))
  else if passphrase S options = [] then .error (.secretStorage (ascii "Passphrase required for envelope encryption"))
  else .ok ()

def storeSecret (bundleHash secret : ByteString) (options : StorageOptions) (now : Int64) : Run Unit := do
  Act.ofExcept (checked S bundleHash secret options)
  let payload ← sealItem S secret (passphrase S options) (metadata bundleHash options now)
  setItem S (keyPrefix ++ bundleHash) payload
  match options.recoveryPassphrase with
  | none => return ()
  | some recoveryPassphrase => do
    Act.require (recoveryPassphrase ≠ []) (.secretStorage (ascii "Recovery passphrase cannot be empty"))
    let recoveryPayload ← sealItem S secret recoveryPassphrase (metadata bundleHash options now)
    setItem S (recoveryKeyPrefix ++ bundleHash) recoveryPayload

def retrieveSecret (s : State) (bundleHash : ByteString) (options : StorageOptions) : Throws (Option ByteString) :=
  match s.items.find? (keyPrefix ++ bundleHash) with
  | none => .ok none
  | some raw => do
    let payload ← EncryptedSecretPayload.fromString S.floatText raw
    if passphrase S options = [] then .error (.secretStorage (ascii "Passphrase required for secret decryption"))
    else (openPayload S.crypto payload (passphrase S options)).map some

def deleteSecret (bundleHash : ByteString) : Run Bool := do
  let removedPrimary ← removeItem S (keyPrefix ++ bundleHash)
  let removedRecovery ← removeItem S (recoveryKeyPrefix ++ bundleHash)
  return removedPrimary || removedRecovery

def hasSecret (s : State) (bundleHash : ByteString) : Bool := s.items.contains (keyPrefix ++ bundleHash)

/-- The metadata of the primary records; an item that cannot be read is skipped. -/
def listSecrets (s : State) : List SecretStorageMetadata :=
  (s.items.keys.filter fun key => keyPrefix.isPrefixOf key && !recoveryKeyPrefix.isPrefixOf key).filterMap fun key =>
    (s.items.find? key).bind fun raw => (EncryptedSecretPayload.fromString S.floatText raw).toOption.map (·.metadata)

/-- The secret of a bundle's recovery record. -/
def recovered (s : State) (bundleHash recoveryPassphrase : ByteString) : Throws ByteString :=
  if bundleHash = [] then .error (.secretStorage (ascii "Bundle hash cannot be empty"))
  else if recoveryPassphrase = [] then .error (.secretStorage (ascii "Recovery passphrase cannot be empty"))
  else
    match s.items.find? (recoveryKeyPrefix ++ bundleHash) with
    | none => .error (.secretNotFound bundleHash)
    | some raw => openText S.crypto S.floatText raw recoveryPassphrase

/-- The options under which a recovered secret is stored again. -/
def storeOpts (options : StorageOptions) (recoveryPassphrase : ByteString) : StorageOptions :=
  { options with
    passphrase := some (options.passphrase.getD (S.defaultPassphrase.getD recoveryPassphrase))
    recoveryPassphrase := some recoveryPassphrase }

def recoverSecret (bundleHash recoveryPassphrase : ByteString) (options : StorageOptions) (now : Int64) : Run Unit := do
  let secret ← Act.ofExcept (recovered S (← get) bundleHash recoveryPassphrase)
  storeSecret S bundleHash secret (storeOpts S options recoveryPassphrase) now

end AesGcmSecretStorageProvider

namespace MemorySecretStorageProvider

structure Setting where
  crypto : OpenSsl
  floatText : Json.FloatText

structure Entry where
  secret : ByteString
  metadata : SecretStorageMetadata
  deriving DecidableEq, Repr

structure State where
  store : StdMap Entry := {}
  recoveryStore : StdMap ByteString := {}
  randCalls : Nat := 0

abbrev Run := Act Exception State

variable (S : Setting)

def metadata (bundleHash : ByteString) (options : StorageOptions) (now : Int64) : SecretStorageMetadata :=
  { bundleHash, label := options.label, createdAt := now, hardwareBacked := false, providerType := ascii "memory" }

/-- The recovery record is an envelope as the other provider writes it. -/
def recoveryMeta (bundleHash : ByteString) (options : StorageOptions) (now : Int64) : SecretStorageMetadata :=
  { metadata bundleHash options now with providerType := ascii "aes-gcm" }

/-- The checks of `storeSecret`. -/
def checked (bundleHash secret : ByteString) : Throws Unit :=
  if bundleHash = [] then .error (.secretStorage (ascii "Bundle hash cannot be empty"))
  else if secret = [] then .error (.secretStorage (ascii "Secret cannot be empty"))
  else .ok ()

def storeSecret (bundleHash secret : ByteString) (options : StorageOptions) (now : Int64) : Run Unit := do
  Act.ofExcept (checked bundleHash secret)
  modify fun s => { s with store := s.store.set bundleHash ⟨secret, metadata bundleHash options now⟩ }
  match options.recoveryPassphrase with
  | none => return ()
  | some recoveryPassphrase => do
    Act.require (recoveryPassphrase ≠ []) (.secretStorage (ascii "Recovery passphrase cannot be empty"))
    let s ← get
    set { s with randCalls := s.randCalls + 2 }
    let recoveryPayload ← Act.ofExcept
      (sealText S.crypto s.randCalls secret recoveryPassphrase (recoveryMeta bundleHash options now))
    modify fun s => { s with recoveryStore := s.recoveryStore.set bundleHash recoveryPayload }

def retrieveSecret (s : State) (bundleHash : ByteString) (_options : StorageOptions) : Throws (Option ByteString) :=
  .ok ((s.store.find? bundleHash).map (·.secret))

def deleteSecret (bundleHash : ByteString) : Run Bool := do
  let s ← get
  set { s with recoveryStore := s.recoveryStore.erase bundleHash, store := s.store.erase bundleHash }
  return s.store.contains bundleHash || s.recoveryStore.contains bundleHash

def hasSecret (s : State) (bundleHash : ByteString) : Bool := s.store.contains bundleHash

def listSecrets (s : State) : List SecretStorageMetadata := s.store.entries.map (·.2.metadata)

/-- The secret of a bundle's recovery record. -/
def recovered (s : State) (bundleHash recoveryPassphrase : ByteString) : Throws ByteString :=
  if bundleHash = [] then .error (.secretStorage (ascii "Bundle hash cannot be empty"))
  else if recoveryPassphrase = [] then .error (.secretStorage (ascii "Recovery passphrase cannot be empty"))
  else
    match s.recoveryStore.find? bundleHash with
    | none => .error (.secretNotFound bundleHash)
    | some raw => openText S.crypto S.floatText raw recoveryPassphrase

def recoverSecret (bundleHash recoveryPassphrase : ByteString) (options : StorageOptions) (now : Int64) : Run Unit := do
  let secret ← Act.ofExcept (recovered S (← get) bundleHash recoveryPassphrase)
  storeSecret S bundleHash secret { options with recoveryPassphrase := some recoveryPassphrase } now

end MemorySecretStorageProvider

end KnishIO
