import KnishIO.Wallet

open ByteString

namespace KnishIO

/-- What `executeWithRetry` settles on. A request that got no answer at all has status 0. -/
structure Reply where
  statusCode : Int
  body : ByteString := []
  deriving DecidableEq, Repr

def Reply.isSuccess (reply : Reply) : Bool := 200 ≤ reply.statusCode && reply.statusCode < 300

/-- `body["data"]` where there is one, else the body itself. -/
def responseData (body : Json) : Json :=
  match body.find? (ascii "data") with
  | some data => if data.isNull then body else data
  | none => body

/-- A parsed response: its data and its error message. -/
structure Response where
  data : Json := .null
  error : Option ByteString := none

namespace Response

/-- A pointer as the validator reports it. -/
structure ContinuID where
  bundle : ByteString := []
  position : ByteString := []
  walletAddress : ByteString := []
  deriving DecidableEq, Repr

/-- `ResponseContinuId::getContinuId` after `parseData`. -/
def continuId (data : Json) : Option ContinuID :=
  match data.find? (ascii "ContinuId") with
  | some continuData =>
    if continuData.isObject then
      some {
        bundle := (continuData.stringAt "bundleHash").getD []
        position := (continuData.stringAt "position").getD []
        walletAddress := (continuData.stringAt "address").getD [] }
    else none
  | none => none

section ProposeMolecule

/-- A member of the ProposeMolecule object that is a string. -/
def proposeMember (data : Json) (key : String) : Option ByteString :=
  (data.find? (ascii "ProposeMolecule")).bind (·.stringAt key)

def getStatus (data : Json) : ByteString := (proposeMember data "status").getD (ascii "unknown")

def isAccepted (data : Json) : Bool := getStatus data = ascii "accepted" || getStatus data = ascii "success"

/-- The payload of a proposal is JSON inside a string; an empty object where it is absent or does not parse. -/
def parseProposePayload (F : Json.FloatText) (data : Json) : Json :=
  match proposeMember data "payload" with
  | none => .obj []
  | some payload => (Json.parse F payload).getD (.obj [])

def getAuthToken (F : Json.FloatText) (data : Json) : ByteString :=
  ((parseProposePayload F data).stringAt "token").getD []

def isAuthorized (F : Json.FloatText) (data : Json) : Bool := getAuthToken F data ≠ []

end ProposeMolecule

end Response

/-- The reply to a proposal as the response handed to the caller. -/
def Reply.proposal (F : Json.FloatText) (failure : String) (reply : Reply) : Throws Response :=
  if !reply.isSuccess then
    .ok { error := some (ascii failure ++ ascii " failed (HTTP " ++ Decimal.ofInt reply.statusCode ++ ascii ")") }
  else (parseJson F reply.body).map fun body => { data := responseData body }

/-- The reply to a ContinuId query as the public query reports it. -/
def Reply.continuId (F : Json.FloatText) (reply : Reply) : Response :=
  if !reply.isSuccess then
    { error := some (ascii "ContinuId query failed (HTTP " ++ Decimal.ofInt reply.statusCode ++ ascii ")") }
  else
    match parseJson F reply.body with
    | .ok body => { data := responseData body }
    | .error e => { error := some (ascii "ContinuId query error: " ++ e.what) }

end KnishIO
