import KnishIO.Atom
import KnishIO.Library.CFloat
import KnishIO.Utility.Base64

open ByteString

namespace KnishIO

/-- What the envelope needs of OpenSSL: the random bytes of each `RAND_bytes` call, PBKDF2-HMAC-SHA256, and
AES-256-GCM, whose ciphertext ends with its sixteen-byte tag. Every call may fail. -/
structure OpenSsl where
  randBytes : Nat → Nat → Option ByteString
  length_randBytes : ∀ call length bytes, randBytes call length = some bytes → bytes.length = length
  pbkdf2 : ByteString → ByteString → Nat → Option ByteString
  encrypt : ByteString → ByteString → ByteString → Option ByteString
  length_encrypt : ∀ key iv plaintext sealed, encrypt key iv plaintext = some sealed →
    sealed.length = plaintext.length + 16
  decrypt : ByteString → ByteString → ByteString → ByteString → Option ByteString

namespace Exception

def decryptionFailed (reason : ByteString) : Exception := secretStorage (ascii "Decryption failed: " ++ reason)

def secretNotFound (bundleHash : ByteString) : Exception :=
  secretStorage (ascii "Secret not found for bundle: " ++ bundleHash)

end Exception

section Base64

def encodeBase64 (data : ByteString) : ByteString := (blocks 3 data).flatMap encodeGroup

/-- Four symbols; every byte but the padding has to be one of the alphabet. -/
def decodeStrictGroup (group : ByteString) : Throws ByteString :=
  match group.find? fun c => c ≠ 61 && (base64Index c).isNone with
  | some c => .error (.decryptionFailed (ascii "Invalid Base64 character: " ++ [c]))
  | none => .ok (decodeGroup group)

/-- White space is left out first. -/
def decodeBase64 (str : ByteString) : Throws ByteString :=
  let clean := str.filter fun c => !CInteger.isSpace c
  if clean.length % 4 ≠ 0 then .error (.decryptionFailed (ascii "Invalid Base64 length"))
  else ((blocks 4 clean).mapM decodeStrictGroup).map List.flatten

end Base64

section Numbers

/-- `static_cast` of a double; out of range it has no meaning. -/
def castDouble (low high : Int) (text : ByteString) : Throws Int :=
  match (CFloat.strtod text).1 with
  | .finite q =>
    let n := if 0 ≤ q then ⌊q⌋ else ⌈q⌉
    if low ≤ n ∧ n ≤ high then .ok n else .error .undefinedBehavior
  | _ => .error .undefinedBehavior

/-- `get<uint32_t>`. -/
def getUInt32 : Json → Throws UInt32
  | .int n => .ok (UInt32.ofInt n)
  | .float text => (castDouble 0 (2 ^ 32 - 1) text).map UInt32.ofInt
  | .bool b => .ok (if b then 1 else 0)
  | _ => .error .jsonType

/-- `get<int64_t>`. -/
def getInt64 : Json → Throws Int64
  | .int n => .ok (Int64.ofInt n)
  | .float text => (castDouble (-2 ^ 63) (2 ^ 63 - 1) text).map Int64.ofInt
  | _ => .error .jsonType

/-- `get<bool>`. -/
def getBool : Json → Throws Bool
  | .bool b => .ok b
  | _ => .error .jsonType

end Numbers

structure SecretStorageMetadata where
  bundleHash : ByteString
  label : Option ByteString := none
  createdAt : Int64 := 0
  hardwareBacked : Bool := false
  providerType : ByteString
  deriving DecidableEq, Repr

namespace SecretStorageMetadata

/-- The members in the order of the assignments; an empty label is left out. -/
def wireMembers (m : SecretStorageMetadata) : List (ByteString × Json) :=
  [(ascii "bundleHash", .str m.bundleHash), (ascii "createdAt", .int m.createdAt.toInt),
    (ascii "hardwareBacked", .bool m.hardwareBacked), (ascii "providerType", .str m.providerType)] ++
    if m.label.getD [] = [] then [] else [(ascii "label", .str (m.label.getD []))]

def toJson (m : SecretStorageMetadata) : Json := Json.object m.wireMembers

/-- A member under its name or else under its older name. -/
def eitherMember (j : Json) (key older : String) : Option Json :=
  (j.find? (ascii key)).or (j.find? (ascii older))

def missingField (name : String) : Exception :=
  .secretStorage (ascii "Metadata missing required field '" ++ ascii name ++ ascii "'")

def required {α : Type} (name : String) (get : Json → Throws α) : Option Json → Throws α
  | none => .error (missingField name)
  | some j => get j

def readHardwareBacked (j : Json) : Throws Bool :=
  match eitherMember j "hardwareBacked" "hardware_backed" with
  | none => .ok false
  | some value => getBool value

def readLabel (j : Json) : Throws (Option ByteString) :=
  match j.find? (ascii "label") with
  | none => .ok none
  | some value => if value.isNull then .ok none else (getString value).map some

def fromJson (j : Json) : Throws SecretStorageMetadata :=
  if !j.isObject then .error (.secretStorage (ascii "Invalid metadata: expected JSON object"))
  else do
    let bundleHash ← required "bundleHash" getString (eitherMember j "bundleHash" "bundle_hash")
    let createdAt ← required "createdAt" getInt64 (eitherMember j "createdAt" "created_at")
    let hardwareBacked ← readHardwareBacked j
    let providerType ← required "providerType" getString (eitherMember j "providerType" "provider_type")
    let label ← readLabel j
    return { bundleHash, label, createdAt, hardwareBacked, providerType }

/-- An empty label is no label. -/
def normalized (m : SecretStorageMetadata) : SecretStorageMetadata :=
  { m with label := if m.label.getD [] = [] then none else m.label }

end SecretStorageMetadata

def defaultIterations : UInt32 := 100000

structure EncryptedSecretPayload where
  version : UInt32 := 1
  ciphertext : ByteString
  iv : ByteString
  salt : ByteString
  algorithm : ByteString := ascii "AES-GCM"
  iterations : UInt32 := defaultIterations
  metadata : SecretStorageMetadata
  deriving DecidableEq, Repr

namespace EncryptedSecretPayload

def wireMembers (p : EncryptedSecretPayload) : List (ByteString × Json) :=
  [(ascii "version", .int p.version.toNat), (ascii "ciphertext", .str p.ciphertext), (ascii "iv", .str p.iv),
    (ascii "salt", .str p.salt), (ascii "algorithm", .str p.algorithm), (ascii "iterations", .int p.iterations.toNat),
    (ascii "metadata", p.metadata.toJson)]

def toJson (p : EncryptedSecretPayload) : Json := Json.object p.wireMembers

/-- A member that is left at its default where it is absent. -/
def orDefault {α : Type} (default : α) (get : Json → Throws α) : Option Json → Throws α
  | none => .ok default
  | some j => get j

def fromJson (j : Json) : Throws EncryptedSecretPayload :=
  if !j.isObject then .error (.secretStorage (ascii "Invalid payload: expected JSON object"))
  else
    match j.find? (ascii "version"), j.find? (ascii "ciphertext"), j.find? (ascii "iv"), j.find? (ascii "salt"),
      j.find? (ascii "metadata") with
    | some version, some ciphertext, some iv, some salt, some metadata => do
      let version ← getUInt32 version
      let ciphertext ← getString ciphertext
      let iv ← getString iv
      let salt ← getString salt
      let algorithm ← orDefault (ascii "AES-GCM") getString (j.find? (ascii "algorithm"))
      let iterations ← orDefault defaultIterations getUInt32 (j.find? (ascii "iterations"))
      let metadata ← SecretStorageMetadata.fromJson metadata
      return { version, ciphertext, iv, salt, algorithm, iterations, metadata }
    | _, _, _, _, _ => .error (.secretStorage (ascii "Payload missing required fields"))

/-- The text of the payload; its strings have to be UTF-8. -/
def text (p : EncryptedSecretPayload) : Throws ByteString := dumpJson p.toJson

/-- Every exception but one of the storage itself becomes a failed decryption. -/
def recast (e : Exception) : Exception :=
  if e.kind = .secretStorage ∨ e.kind = .undefinedBehavior then e
  else .decryptionFailed (ascii "Corrupted payload format: " ++ e.what)

def fromString (F : Json.FloatText) (jsonStr : ByteString) : Throws EncryptedSecretPayload :=
  (parseJson F jsonStr >>= fromJson).mapError recast

end EncryptedSecretPayload

section Envelope

variable (C : OpenSsl)

def deriveKey (passphrase salt : ByteString) (iterations : UInt32) : Throws ByteString :=
  match C.pbkdf2 passphrase salt iterations.toNat with
  | some key => .ok key
  | none => .error (.secretStorage (ascii "PBKDF2-HMAC-SHA256 key derivation failed"))

/-- The result of an OpenSSL call, or an exception with a message. -/
def orThrow (message : String) : Option ByteString → Throws ByteString
  | some bytes => .ok bytes
  | none => .error (.secretStorage (ascii message))

/-- Seals under fresh random bytes, those of the calls `call` and `call + 1`. -/
def sealSecret (call : Nat) (secret passphrase : ByteString) (metadata : SecretStorageMetadata) :
    Throws EncryptedSecretPayload := do
  let salt ← orThrow "Failed to generate random salt" (C.randBytes call 16)
  let iv ← orThrow "Failed to generate random IV" (C.randBytes (call + 1) 12)
  let key ← deriveKey C passphrase salt defaultIterations
  let output ← orThrow "AES-256-GCM encryption failed" (C.encrypt key iv secret)
  return {
    ciphertext := encodeBase64 output
    iv := encodeBase64 iv
    salt := encodeBase64 salt
    metadata }

/-- A decoding whose failure is reported with the field it is about. -/
def decodeField (name : String) (str : ByteString) : Throws ByteString :=
  (decodeBase64 str).mapError fun e =>
    .decryptionFailed (ascii "Invalid " ++ ascii name ++ ascii " Base64: " ++ e.what)

/-- `open`. -/
def openPayload (payload : EncryptedSecretPayload) (passphrase : ByteString) : Throws ByteString := do
  let salt ← decodeField "salt" payload.salt
  let iv ← decodeField "IV" payload.iv
  if iv.length ≠ 12 then
    throw (.decryptionFailed (ascii "Invalid IV length: expected 12 bytes"))
  let ciphertextWithTag ← decodeField "ciphertext" payload.ciphertext
  if ciphertextWithTag.length < 16 then
    throw (.decryptionFailed (ascii "Ciphertext too short for authentication tag"))
  let key ← deriveKey C passphrase salt payload.iterations
  match C.decrypt key iv (ciphertextWithTag.take (ciphertextWithTag.length - 16))
    (ciphertextWithTag.drop (ciphertextWithTag.length - 16)) with
  | some plaintext => return plaintext
  | none => throw (.decryptionFailed (ascii "Authentication tag mismatch or decryption failure"))

end Envelope

end KnishIO
