import KnishIO.Client
import KnishIO.Http.Operation
import KnishIO.Wallet.Encryption

open ByteString

namespace KnishIO

namespace GraphQLClient

/-- A `GraphQLException`. -/
def graphQLException (message : ByteString) : Exception := ⟨.graphQL, ascii "GraphQL Error: " ++ message⟩

structure Response where
  statusCode : Int := 0
  body : ByteString := []
  headers : List (ByteString × ByteString) := []
  error : Option ByteString := none

def Response.isSuccess (response : Response) : Bool := 200 ≤ response.statusCode && response.statusCode < 300

/-- What libcurl makes of one attempt: it may have no handle, fail, or bring a reply. -/
inductive Attempt where
  | noHandle
  | failed (message : ByteString)
  | replied (statusCode : Int) (body : ByteString) (headers : List (ByteString × ByteString))

/-- The implementation object, with the bodies that were posted and the number of calls for random bytes. The
settings that only go to libcurl, and the waiting times between attempts, have no part in what is sent. -/
structure Impl where
  transport : Transport := {}
  maxRetries : Int := 3
  totalRequests : Nat := 0
  failedRequests : Nat := 0
  retryCount : Nat := 0
  lastRequestSucceeded : Bool := false
  posted : List ByteString := []
  randCalls : Nat := 0

def Impl.countRetry (impl : Impl) (retry : Bool) : Impl :=
  if retry then { impl with retryCount := impl.retryCount + 1 } else impl

/-- The cryptography, and the outcomes of the attempts in their order. -/
structure Setting extends CipherSetting where
  curl : Nat → Attempt

def cipherHashQuery : ByteString := ascii "query ( $Hash: String! ) \x7b CipherHash ( Hash: $Hash ) \x7b hash \x7d \x7d"

/-- The body of a CipherHash request. -/
def wrapped (envelope : ByteString) : Throws ByteString :=
  Request.toJsonString { query := cipherHashQuery, vars := some (Json.object [(ascii "Hash", .str envelope)]) }

section Execute

variable (S : Setting)

/-- The body to post, and the wallet that encrypted it when one did. A bypass is decided before the keys are
asked for. -/
def postData (request : Request) : Act Exception Impl (ByteString × Option Wallet) := do
  let transport := (← get).transport
  if transport.cipherEnabled && shouldEncryptRequest request then
    match transport.cipherWallet with
    | none => throw (.encryptedTransport "Authorized wallet missing.")
    | some wallet =>
      if transport.serverPubKey.getD [] = [] then throw (.encryptedTransport "Server public key missing.")
      let text ← Act.ofExcept request.toJsonString
      let call := (← get).randCalls
      modify fun impl => { impl with randCalls := call + 2 }
      let envelope ← Act.ofExcept (wallet.encryptStringML S.toCipherSetting call text (transport.serverPubKey.getD []))
      return (← Act.ofExcept (wrapped envelope), some wallet)
  else
    return (← Act.ofExcept request.toJsonString, none)

/-- The hash of a CipherHash reply. -/
def cipherHash (reply : Json) : Option ByteString :=
  ((reply.find? (ascii "data")).bind fun data => data.find? (ascii "CipherHash")).bind (·.stringAt "hash")

/-- The decrypted body of a reply to an encrypted request; a body that is no envelope for the wallet is left
unchanged. -/
def openBody (wallet : Wallet) (body : ByteString) : ByteString :=
  match (Json.parse S.floatText body).bind cipherHash with
  | some hash =>
    match wallet.decryptMyMessageML S.toCipherSetting hash with
    | .ok decrypted => if decrypted = [] then body else decrypted
    | .error _ => body
  | _ => body

/-- The errors that a reply lists, as text. An empty body has none. -/
def graphQLErrors (body : ByteString) : Option ByteString :=
  match (Json.parse S.floatText body).bind fun reply => reply.find? (ascii "errors") with
  | some (.arr errors) => (Json.arr errors).dump
  | _ => none

/-- One attempt. What is posted stands in the history before libcurl reports. -/
def executeInternal (request : Request) : Act Exception Impl Response := do
  let attempt := S.curl (← get).totalRequests
  modify fun impl => { impl with totalRequests := impl.totalRequests + 1 }
  match attempt with
  | .noHandle => throw (graphQLException (ascii "Failed to initialize CURL handle"))
  | .failed message =>
    let (data, _) ← postData S request
    modify fun impl => { impl with posted := impl.posted ++ [data] }
    return { error := some (ascii "CURL error: " ++ message) }
  | .replied statusCode body headers =>
    let (data, wallet) ← postData S request
    modify fun impl => { impl with posted := impl.posted ++ [data] }
    let body := match wallet with
      | some wallet => openBody S wallet body
      | none => body
    return { statusCode, body, headers, error := graphQLErrors S body }

/-- The attempts that are left. An exception other than the refusal to send in plaintext becomes a response of
status 0, which is neither a success nor a client error, so that the loop goes on. -/
def retryFrom (request : Request) : Nat → Bool → Response → Act Exception Impl Response
  | 0, _, lastResponse => do
    let maxRetries := (← get).maxRetries
    modify fun impl => { impl with failedRequests := impl.failedRequests + 1, lastRequestSucceeded := false }
    return { lastResponse with
      error := some (lastResponse.error.getD
        (ascii "Request failed after " ++ Decimal.ofInt maxRetries ++ ascii " retries")) }
  | n + 1, retry, lastResponse => do
    modify fun impl => impl.countRetry retry
    let response ← tryCatch (executeInternal S request) fun e =>
      if e.kind = .encryptedTransport then throw e
      else pure { lastResponse with error := some e.what, statusCode := 0 }
    if response.isSuccess then
      modify fun impl => { impl with lastRequestSucceeded := true }
      return response
    else if 400 ≤ response.statusCode ∧ response.statusCode < 500 then
      modify fun impl => { impl with failedRequests := impl.failedRequests + 1, lastRequestSucceeded := false }
      return response
    else retryFrom request n true response

/-- A negative number of retries leaves no attempt at all. -/
def executeWithRetry (request : Request) : Act Exception Impl Response := do
  retryFrom S request ((← get).maxRetries + 1).toNat false {}

end Execute

end GraphQLClient

end KnishIO
