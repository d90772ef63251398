import KnishIO.Storage.SecretEnvelope
import KnishIO.Wallet

open ByteString

namespace KnishIO

/-- The whole ML-KEM primitive: with the public key of a seed its private key, encapsulation to a public key with
given coins, whose results are a ciphertext and a shared secret, and decapsulation. -/
structure MlKemNative extends MlKem where
  privateKey : Int → ByteString → ByteString
  encapsulate : Int → ByteString → ByteString → Option (ByteString × ByteString)
  decapsulate : Int → ByteString → ByteString → Option ByteString

/-- What the message encryption of a wallet runs on. -/
structure CipherSetting where
  hash : Shake256
  kem : MlKemNative
  crypto : OpenSsl
  floatText : Json.FloatText

namespace Wallet

def publicKeyBytes (parameterSet : Int) : Nat := if parameterSet = 1024 then 1568 else 1184

def ciphertextBytes (parameterSet : Int) : Nat := if parameterSet = 1024 then 1568 else 1088

def privateKeyBytes (parameterSet : Int) : Nat := if parameterSet = 1024 then 3168 else 2400

def otherParameterSet (parameterSet : Int) : Int := if parameterSet = 1024 then 768 else 1024

section SharedSecret

variable (S : CipherSetting)

/-- The nonce, the ciphertext and the tag. -/
def encryptWithSharedSecret (call : Nat) (message sharedSecret : ByteString) : Throws ByteString :=
  if sharedSecret.length ≠ 32 then
    .error (.invalidArgument (ascii "Shared secret must be 32 bytes for AES-256-GCM"))
  else do
    let iv ← Throws.ofOption (.runtimeError (ascii "AES-256-GCM: IV generation failed")) (S.crypto.randBytes call 12)
    let output ← Throws.ofOption (.runtimeError (ascii "AES-256-GCM encryption failed"))
      (S.crypto.encrypt sharedSecret iv message)
    return iv ++ output

def decryptWithSharedSecret (encryptedMessage sharedSecret : ByteString) : Throws ByteString :=
  if sharedSecret.length ≠ 32 then
    .error (.invalidArgument (ascii "Shared secret must be 32 bytes for AES-256-GCM"))
  else if encryptedMessage.length < 28 then
    .error (.invalidArgument (ascii "Encrypted message too short for AES-256-GCM format"))
  else
    let sealedMessage := encryptedMessage.drop 12
    Throws.ofOption (.runtimeError (ascii "AES-256-GCM decryption failed: authentication tag mismatch"))
      (S.crypto.decrypt sharedSecret (encryptedMessage.take 12) (sealedMessage.take (sealedMessage.length - 16))
        (sealedMessage.drop (sealedMessage.length - 16)))

end SharedSecret

section MlKem

variable (S : CipherSetting) (w : Wallet)

/-- The peer has to use the parameter set of this wallet. -/
def wrongPublicKey (size : Nat) (parameterSet : Int) : Exception :=
  let set := Decimal.ofInt parameterSet
  .invalidArgument (ascii "KnishIO: cannot ML-KEM-encrypt " ++ [0xE2, 0x80, 0x94] ++ ascii " recipient public key is " ++
    Decimal.ofInt size ++ ascii " bytes, expected " ++ Decimal.ofInt (publicKeyBytes parameterSet) ++ ascii " (ML-KEM-" ++ set ++
    ascii "). The peer is not running ML-KEM-" ++ set ++
    ascii "; upgrade the peer, or step this client back to the other parameter set.")

/-- Encapsulates to the recipient and encrypts the message as a JSON string. The random bytes are those of two
calls. -/
def encryptMessageML (call : Nat) (message recipientPubkey : ByteString) : Throws (List (ByteString × ByteString)) := do
  let recipientKey := fromBase64 recipientPubkey
  if recipientKey.length ≠ publicKeyBytes w.mlkemParameterSet then
    throw (wrongPublicKey recipientKey.length w.mlkemParameterSet)
  let coins ← Throws.ofOption (.runtimeError (ascii "ML-KEM encapsulation RNG failed")) (S.crypto.randBytes call 32)
  let (ciphertext, sharedSecret) ← Throws.ofOption (.runtimeError (ascii "ML-KEM encapsulation failed"))
    (S.kem.encapsulate w.mlkemParameterSet recipientKey coins)
  let messageJson ← dumpJson (.str message)
  let encrypted ← encryptWithSharedSecret S (call + 1) messageJson sharedSecret
  return [(ascii "cipherText", toBase64 ciphertext), (ascii "encryptedMessage", toBase64 encrypted)]

def hashShare (H : Shake256) (pubkey : ByteString) : ByteString := toBase64 (shake256 H pubkey 64)

/-- The request envelope: a map with the recipient as its only key. -/
def encryptStringML (call : Nat) (message recipientPubkey : ByteString) : Throws ByteString := do
  let envelope ← encryptMessageML S w call message recipientPubkey
  dumpJson (Json.object [(hashShare S.hash recipientPubkey, Json.object (envelope.map fun m => (m.1, Json.str m.2)))])

/-- The private key of the wallet at a parameter set; a wallet without a key has none. -/
def mlkemPrivateKey (parameterSet : Int) : ByteString :=
  if w.key = [] then [] else S.kem.privateKey parameterSet (shake256 S.hash w.key 512)

/-- The parameter set a ciphertext was made for, with the private key to it. The other identity of the wallet is
derived on demand. -/
def decapsulationKey (size : Nat) : Throws (Int × ByteString) :=
  let other := otherParameterSet w.mlkemParameterSet
  if size = ciphertextBytes w.mlkemParameterSet then
    if (mlkemPrivateKey S w w.mlkemParameterSet).length ≠ privateKeyBytes w.mlkemParameterSet then
      .error (.invalidArgument (ascii "ML-KEM private key unavailable for this wallet"))
    else .ok (w.mlkemParameterSet, mlkemPrivateKey S w w.mlkemParameterSet)
  else if size = ciphertextBytes other then
    (if w.key = [] then .ok [] else deriveMlKemKeypair S.hash S.kem.toMlKem w.key other).bind fun _ =>
      if (mlkemPrivateKey S w other).length ≠ privateKeyBytes other then
        .error (.invalidArgument (ascii "ML-KEM private key unavailable for this wallet"))
      else .ok (other, mlkemPrivateKey S w other)
  else .error (.invalidArgument (ascii "Invalid ML-KEM ciphertext size"))

/-- `map::at`. -/
def entryAt (entries : List (ByteString × ByteString)) (key : String) : Throws ByteString :=
  Throws.ofOption (.outOfRange (ascii "map::at")) (entries.lookup (ascii key))

def mlkemDecryptToString (encryptedData : List (ByteString × ByteString)) : Throws ByteString := do
  let ciphertext := fromBase64 (← entryAt encryptedData "cipherText")
  let encryptedMessage := fromBase64 (← entryAt encryptedData "encryptedMessage")
  let (parameterSet, privateKey) ← decapsulationKey S w ciphertext.length
  let sharedSecret ← Throws.ofOption (.runtimeError (ascii "ML-KEM decapsulation failed"))
    (S.kem.decapsulate parameterSet ciphertext privateKey)
  decryptWithSharedSecret S encryptedMessage sharedSecret

/-- `get<std::map<std::string, std::string>>`. -/
def stringMap (j : Json) : Throws (List (ByteString × ByteString)) :=
  match j with
  | .obj ms => ms.mapM fun m => (getString m.2).map (m.1, ·)
  | _ => .error .jsonType

/-- The entry of a response map that is addressed to this wallet, under either of its identities; empty where
there is none. -/
def decryptMyMessageML (mapJson : ByteString) : Throws ByteString := do
  let map ← parseJson S.floatText mapJson
  let ownKey := hashShare S.hash (toBase64 w.mlkemPublicKey)
  let shareKey ←
    if !map.contains ownKey && w.mlkemPublicKey ≠ [] then
      (deriveMlKemKeypair S.hash S.kem.toMlKem w.key (otherParameterSet w.mlkemParameterSet)).map fun publicKey =>
        hashShare S.hash (toBase64 publicKey)
    else Except.ok ownKey
  match map.find? shareKey with
  | none => return []
  | some entry => mlkemDecryptToString S w (← stringMap entry)

end MlKem

end Wallet

end KnishIO
