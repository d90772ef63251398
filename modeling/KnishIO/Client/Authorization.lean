import KnishIO.Client.Operations

open ByteString

namespace KnishIO

/-- The JSON inside the payload string of a successful proposal, where it parses. -/
def Reply.payload (F : Json.FloatText) (reply : Reply) : Option Json :=
  if !reply.isSuccess then none
  else
    (Json.parse F reply.body).bind fun body =>
      (((body.find? (ascii "data")).bind (·.find? (ascii "ProposeMolecule"))).bind (·.stringAt "payload")).bind
        (Json.parse F)

/-- `authToken = jwt` on the client and on its transport. -/
def Client.setAuthToken (client : Client) (jwt : ByteString) : Client :=
  { client with authToken := some jwt, transport := { client.transport with authToken := some jwt } }

def Client.setCipherContext (client : Client) (wallet : Wallet) (serverPubKey : ByteString) : Client :=
  { client with
    transport := { client.transport with cipherWallet := some wallet, serverPubKey := some serverPubKey } }

def Client.setEncryption (client : Client) (encrypt : Bool) : Client :=
  { client with transport := { client.transport with cipherEnabled := encrypt } }

/-- What an authorization payload sets: the token and the cipher context, each where it is there, and
the requested mode. -/
def Client.bindSession (client : Client) (source : Wallet) (encrypt : Bool) (payload : Json) : Client :=
  let client := (payload.stringAt "token").elim client client.setAuthToken
  let client := (payload.stringAt "key").elim client (client.setCipherContext source)
  client.setEncryption encrypt

/-- The message of a pointer query that failed. -/
def Response.continuIdFailure (continuId : Response) : Throws (Option ByteString) :=
  match continuId.error, continuId.data.find? (ascii "errors") with
  | some message, _ => .ok (some message)
  | none, some errors => (dumpJson errors).map fun text => some (ascii "ContinuId query error: " ++ text)
  | none, none => .ok none

/-- The pointer of a USER wallet. -/
def Response.userPointer (data : Json) : Option Response.ContinuID :=
  match Response.continuId data with
  | none => none
  | some pointer =>
    if pointer.position ≠ [] ∧ (data.find? (ascii "ContinuId")).bind (·.stringAt "tokenSlug") = some (ascii "USER") then
      some pointer
    else none

/-- The answer to a login that is returned as it is: an authorization, an error, or a verdict that is no rejection. -/
def Response.settlesLogin (F : Json.FloatText) (result : Response) : Bool :=
  Response.isAuthorized F result.data || result.error.isSome || Response.getStatus result.data = [] ||
    Response.isAccepted result.data

section Authorization

variable {E : Type} (S : Setting E)

/-- The public pointer query, which reports every failure as an error of its result. -/
def queryContinuId (bundle : ByteString) : Run E Response :=
  tryCatch (return (← query S (.continuId bundle)).continuId S.floatText)
    fun e => return { error := some (ascii "ContinuId query error: " ++ e.what) }

/-- Signs and proposes an authorization molecule from a source wallet and binds the session to the reply. -/
def proposeAuthorization (secret : Secret) (cellSlug : ByteString) (encrypt : Bool) (source : Wallet) :
    Run E Response := do
  let config := (← get).client.config
  let remainder ← newWallet S secret (ascii "USER") [] config.mlKemParameterSet
    (config.successorOtsVersion source.otsVersion)
  let molecule ← assemble S cellSlug source remainder (.initAuthorization source encrypt)
  let (_, signed) ← Act.ofExcept ((Molecule.sign S.hash secret.bytes).run molecule)
  let _moleculeJson ← Act.ofExcept signed.toJson
  let reply ← mutate S secret signed
  let result ← Act.ofExcept (reply.proposal S.floatText "Authorization request")
  modify fun w =>
    { w with client := (reply.payload S.floatText).elim w.client (w.client.bindSession source encrypt) }
  return result

def authorizeFromFreshAuthWallet (secret : Secret) (cellSlug : ByteString) (encrypt : Bool) : Run E Response := do
  let config := (← get).client.config
  let source ← newWallet S secret (ascii "AUTH") [] config.mlKemParameterSet config.otsVersion
  proposeAuthorization S secret cellSlug encrypt source

/-- The version at which the pointer's address was derived; the client's own without an address. -/
def pointerOtsVersion (config : Config) (secret : Secret) (pointer : Response.ContinuID) : Throws (Option Int) :=
  if pointer.walletAddress = [] then .ok (some config.otsVersion)
  else Wallet.detectOtsVersion S.hash secret.bytes (ascii "USER") pointer.position pointer.walletAddress config.otsVersion

/-- The login once the pointer query was answered. -/
def login (secret : Secret) (cellSlug : ByteString) (encrypt : Bool) (pointer : Option Response.ContinuID) :
    Run E Response := do
  match pointer with
  | none => authorizeFromFreshAuthWallet S secret cellSlug encrypt
  | some pointer =>
    let config := (← get).client.config
    match ← Act.ofExcept (pointerOtsVersion S config secret pointer) with
    | none => authorizeFromFreshAuthWallet S secret cellSlug encrypt
    | some version =>
      let pointerWallet ← newWallet S secret (ascii "USER") pointer.position config.mlKemParameterSet version
      let result ← proposeAuthorization S secret cellSlug encrypt pointerWallet
      if result.settlesLogin S.floatText then return result
      else authorizeFromFreshAuthWallet S secret cellSlug encrypt

def useSecret (secret : Option ByteString) : Run E Unit := do
  match secret with
  | some secret => setSecret S secret
  | none =>
    Act.require (← get).client.secret.isSome (.knishio (ascii "No secret available for authentication"))

def requestAuthToken (secret cellSlug : Option ByteString) (encrypt : Bool) : Run E Response := do
  useSecret S secret
  let secret ← secretValue
  let config := (← get).client.config
  let bundle ← getBundle
  let continuId ← queryContinuId S bundle
  match ← Act.ofExcept continuId.continuIdFailure with
  | some message => return { error := some message }
  | none =>
    login S secret (cellSlug.getD (config.cellSlug.getD [])) encrypt (Response.userPointer continuId.data)

end Authorization

/-- A call on the client. -/
inductive Op where
  | setSecret (secret : ByteString)
  | switchEncryption (encrypt : Bool)
  | requestAuthToken (secret cellSlug : Option ByteString) (encrypt : Bool)
  | createToken (token : ByteString) (amount : BinaryFloat.Value) (tokenMeta : Metas) (units : List ByteString)
  | createWallet (token : ByteString)
  | createMeta (metaType metaId : ByteString) («meta» : Metas)
  | claimShadowWallet (token batchId : ByteString)
  | transferToken (bundleHash token : ByteString) (amount : BinaryFloat.Value) (batchId : ByteString)
      (units : List ByteString)
  | transferTokens (token : ByteString) (recipients : List TransferRecipient)
  | burnToken (token : ByteString) (amount : BinaryFloat.Value) (units : List ByteString)
  | depositBufferToken (token : ByteString) (amount : BinaryFloat.Value) (tradeRates : Metas)
  | withdrawBufferToken (token : ByteString) (amount : BinaryFloat.Value) (sourceWallet : Option Wallet)
  | replenishToken (token : ByteString) (amount : BinaryFloat.Value) (units : List ByteString)
  | fuseToken (bundleHash tokenSlug newTokenUnitId : ByteString) (fusedTokenUnitIds : List ByteString)

section Runs

variable {E : Type} (S : Setting E)

/-- The state after a call, which may have thrown. -/
def applyOp (op : Op) (w : World E) : World E :=
  match op with
  | .setSecret secret => ((setSecret S secret).exec w).2
  | .switchEncryption encrypt => ((switchEncryption encrypt).exec w).2
  | .requestAuthToken secret cellSlug encrypt => ((requestAuthToken S secret cellSlug encrypt).exec w).2
  | .createToken token amount tokenMeta units => ((createToken S token amount tokenMeta units).exec w).2
  | .createWallet token => ((createWallet S token).exec w).2
  | .createMeta metaType metaId metas => ((createMeta S metaType metaId metas).exec w).2
  | .claimShadowWallet token batchId => ((claimShadowWallet S token batchId).exec w).2
  | .transferToken bundleHash token amount batchId units =>
    ((transferToken S bundleHash token amount batchId units).exec w).2
  | .transferTokens token recipients => ((transferTokens S token recipients).exec w).2
  | .burnToken token amount units => ((burnToken S token amount units).exec w).2
  | .depositBufferToken token amount tradeRates => ((depositBufferToken S token amount tradeRates).exec w).2
  | .withdrawBufferToken token amount sourceWallet =>
    ((withdrawBufferToken S token amount sourceWallet).exec w).2
  | .replenishToken token amount units => ((replenishToken S token amount units).exec w).2
  | .fuseToken bundleHash tokenSlug newTokenUnitId fusedTokenUnitIds =>
    ((fuseToken S bundleHash tokenSlug newTokenUnitId fusedTokenUnitIds).exec w).2

/-- The state after a run of calls. -/
def runOps (w : World E) (ops : List Op) : World E := ops.foldl (fun w op => applyOp S op w) w

end Runs

end KnishIO
