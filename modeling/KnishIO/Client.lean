import KnishIO.Molecule.Json
import KnishIO.Molecule.Isotope
import KnishIO.Response

open ByteString

namespace KnishIO

/-- The settings that the operations read. The constructor of the client refuses every other OTS version. -/
structure Config where
  cellSlug : Option ByteString := none
  mlKemParameterSet : Int := 1024
  otsVersion : Int := 2
  otsVersion_checked : otsVersion = 1 ∨ otsVersion = 2 := by decide

/-- A secret that `setSecret` accepts. -/
structure Secret where
  bytes : ByteString
  nonempty : bytes ≠ []
  hex : bytes.all isxdigit = true
  deriving DecidableEq, Repr

def Secret.ofBytes (secret : ByteString) : Throws Secret :=
  if hempty : secret = [] then .error (.knishio (ascii "Secret cannot be empty"))
  else if hhex : secret.all isxdigit = true then .ok ⟨secret, hempty, hhex⟩
  else .error (.knishio (ascii "Secret must be a hexadecimal string"))

/-- Sixty-four random hexadecimal digits: a position of `randomString(64, ..)` or the result of
`generateSecret(64)`. -/
structure RandomHex where
  bytes : ByteString
  length_eq : bytes.length = 64
  hex : ∀ c ∈ bytes, isHexLower c = true

/-- What a client sends to its node. -/
inductive Request where
  | continuId (bundle : ByteString)
  | balance (bundleHash token : ByteString) (buffer : Bool)
  | proposeMolecule (molecule : Molecule)
  deriving DecidableEq, Repr

/-- `shouldEncryptRequest`, negated: pointer queries and authorization molecules stay in plaintext. -/
def Request.bypassesCipher : Request → Bool
  | .continuId _ => true
  | .balance _ _ _ => false
  | .proposeMolecule molecule => (molecule.atoms.head?.map (·.isotope)) = some (ascii "U")

/-- The session of the HTTP client. -/
structure Transport where
  authToken : Option ByteString := none
  cipherEnabled : Bool := false
  serverPubKey : Option ByteString := none
  cipherWallet : Option Wallet := none
  deriving DecidableEq, Repr

/-- The fail-closed check: an encrypted request needs a wallet and a non-empty server key. -/
def Transport.permit (transport : Transport) (request : Request) : Throws Unit :=
  if !transport.cipherEnabled || request.bypassesCipher then .ok ()
  else if transport.cipherWallet.isNone then .error (.encryptedTransport "Authorized wallet missing.")
  else if transport.serverPubKey.getD [] = [] then .error (.encryptedTransport "Server public key missing.")
  else .ok ()

structure Client where
  config : Config
  secret : Option Secret := none
  bundle : Option ByteString := none
  authToken : Option ByteString := none
  transport : Transport := {}

def Client.isAuthenticated (client : Client) : Bool := client.authToken.getD [] ≠ []

/-- What happened, in order: a new secret, a query with its reply, a molecule sent with the secret that
signed it and its reply. -/
inductive Event where
  | identified (secret : Secret)
  | asked (request : Request) (reply : Reply)
  | proposed (secret : Secret) (molecule : Molecule) (reply : Reply)
  deriving DecidableEq, Repr

/-- A client and its surroundings: the state of the node, the number of random values drawn so far and the
history. -/
structure World (E : Type) where
  client : Client
  env : E
  drawn : Nat := 0
  log : List Event := []

/-- What the client runs on: the hash and the ML-KEM primitive, the double arithmetic of the JSON library,
the random values, the times of the atoms built after a number of draws, and the node, which answers each
request as it likes and by its own state. -/
structure Setting (E : Type) where
  hash : Shake256
  kem : MlKem
  floatText : Json.FloatText
  draw : Nat → RandomHex
  clock : Nat → Nat → Int64
  serve : Request → E → Reply × E

/-- A computation of the client. -/
abbrev Run (E : Type) := Act Exception (World E)

section Client

variable {E : Type} (S : Setting E)

/-- One exchange with the node; the reply is what the retries settle on. -/
def exchange (request : Request) (record : Reply → Event) : Run E Reply := do
  let world ← get
  Act.ofExcept (world.client.transport.permit request)
  let served := S.serve request world.env
  set { world with env := served.2, log := world.log ++ [record served.1] }
  return served.1

def query (request : Request) : Run E Reply := exchange S request (.asked request)

/-- Sends a molecule that a secret signed. -/
def mutate (secret : Secret) (molecule : Molecule) : Run E Reply :=
  exchange S (.proposeMolecule molecule) (.proposed secret molecule)

def randomHex : Run E ByteString := do
  let world ← get
  set { world with drawn := world.drawn + 1 }
  return (S.draw world.drawn).bytes

/-- The wallet constructor, which draws a position where none is given. -/
def newWallet (secret : Secret) (token position : ByteString) (mlkemParameterSet otsVersion : Int) : Run E Wallet := do
  let position ← (if position = [] then randomHex S else pure position : Run E ByteString)
  Act.ofExcept (Wallet.new S.hash S.kem secret.bytes token position mlkemParameterSet otsVersion)

/-- `pImpl_->secret.value()`. -/
def secretValue : Run E Secret := do
  match (← get).client.secret with
  | some secret => return secret
  | none => throw .badOptionalAccess

def getBundle : Run E ByteString := do
  match (← get).client.bundle with
  | some bundle => return bundle
  | none => throw (.knishio (ascii "No bundle available - secret must be set first"))

def ensureAuthenticated : Run E Unit := do
  Act.require (← get).client.isAuthenticated (.knishio (ascii "Authentication required for this operation"))

/-- The wallet made here is kept for no later use, but its constructor may throw. -/
def setSecret (secret : ByteString) : Run E Unit := do
  let secret ← Act.ofExcept (Secret.ofBytes secret)
  modify fun w => { w with client := { w.client with secret := some secret }, log := w.log ++ [.identified secret] }
  let config := (← get).client.config
  let _authWallet ← newWallet S secret (ascii "USER") [] config.mlKemParameterSet config.otsVersion
  modify fun w =>
    { w with client := { w.client with bundle := some (Wallet.generateBundleHash S.hash secret.bytes) } }

def switchEncryption (encrypt : Bool) : Run E Unit :=
  modify fun w =>
    { w with client := { w.client with transport := { w.client.transport with cipherEnabled := encrypt } } }

end Client

end KnishIO
