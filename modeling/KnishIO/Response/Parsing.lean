import KnishIO.Client.Operations
import KnishIO.Library.Json.Prune

open ByteString

namespace KnishIO

section Fields

/-- `get<std::string>` behind `is_string`. -/
def stringOf (value : Json) : Throws (Option ByteString) :=
  if value.isString then (getString value).map some else .ok none

/-- A field that is taken when it is there and a string. -/
def guardedString (row : Json) (key : String) : Throws (Option ByteString) :=
  match row.find? (ascii key) with
  | none => .ok none
  | some value => stringOf value

/-- A field that is converted whenever it is there. -/
def convertedString (row : Json) (key : String) : Throws (Option ByteString) :=
  match row.find? (ascii key) with
  | none => .ok none
  | some value => (getString value).map some

/-- Only string metas are kept. -/
def stringMembers (metas : Json) : Throws Metas := do
  let read ← metas.members.mapM fun m => (stringOf m.2).map fun s => s.map (m.1, ·)
  return read.reduceOption

def parseUnit (u : Json) : Throws TokenUnit := do
  let id ← guardedString u "id"
  let name ← guardedString u "name"
  let metas ← ((u.find? (ascii "metas")).map stringMembers).getD (.ok [])
  return { id := id.getD [], name := name.getD [], metas }

def parseTokenUnits (walletData : Json) : Throws (List TokenUnit) :=
  match walletData.find? (ascii "tokenUnits") with
  | some (.arr units) => units.mapM parseUnit
  | _ => .ok []

theorem stringOf_eq (value : Json) : stringOf value = .ok value.string? := by
  cases value <;> rfl

theorem guardedString_eq (row : Json) (key : String) : guardedString row key = .ok (row.stringAt key) := by
  rw [guardedString, Json.stringAt]
  cases row.find? (ascii key) with
  | none => rfl
  | some value => exact stringOf_eq value

/-- The conversion returns exactly where the field is not there or a string, and then it reads as a guarded one. -/
theorem convertedString_ok_iff {row : Json} {key : String} {s : Option ByteString} :
    convertedString row key = .ok s ↔
      (∀ value, row.find? (ascii key) = some value → value.isString = true) ∧ s = row.stringAt key := by
  rw [convertedString, Json.stringAt]
  cases row.find? (ascii key) with
  | none =>
    constructor
    · intro h
      exact ⟨by simp, (Except.ok.inj h).symm⟩
    · rintro ⟨-, rfl⟩
      rfl
  | some value =>
    cases hread : value.string? with
    | none =>
      constructor
      · intro h
        simp only [getString, hread] at h
        cases h
      · intro h
        have := h.1 value rfl
        cases value with
        | str s => cases hread
        | _ => cases this
    | some text =>
      constructor
      · intro h
        simp only [getString, hread] at h
        refine ⟨fun value' hvalue => ?_, (Except.ok.inj h).symm.trans hread.symm⟩
        obtain rfl := Option.some.inj hvalue
        cases value with
        | str s => rfl
        | _ => cases hread
      · rintro ⟨-, rfl⟩
        simp only [getString, hread]
        exact congrArg Except.ok hread.symm

theorem mapM_eq_ok {α β : Type} {f : α → Throws β} {g : α → β} (h : ∀ x, f x = .ok (g x)) (xs : List α) :
    xs.mapM f = .ok (xs.map g) := by
  refine Throws.mapM_ok_iff.mpr ?_
  rw [List.forall₂_map_right_iff, List.forall₂_same]
  exact fun x _ => h x

theorem stringMembers_eq (metas : Json) :
    stringMembers metas = .ok (metas.members.filterMap fun m => m.2.string?.map fun s => (m.1, s)) := by
  have hread := mapM_eq_ok (fun m : ByteString × Json => congrArg (Except.map fun s => s.map (m.1, ·)) (stringOf_eq m.2))
    metas.members
  rw [stringMembers, Throws.bind_of_ok hread]
  exact congrArg Except.ok List.filterMap_map

theorem parseUnit_eq (u : Json) : parseUnit u = .ok (parseTokenUnit u) := by
  rw [parseUnit, Throws.bind_of_ok (guardedString_eq u "id"), Throws.bind_of_ok (guardedString_eq u "name"), parseTokenUnit]
  cases u.find? (ascii "metas") with
  | none => rfl
  | some metas =>
    rw [Option.map_some, Option.getD_some, Throws.bind_of_ok (stringMembers_eq metas)]
    rfl

theorem parseTokenUnits_eq (walletData : Json) : parseTokenUnits walletData = .ok (parseWalletTokenUnits walletData) := by
  rw [parseTokenUnits, parseWalletTokenUnits]
  cases walletData.find? (ascii "tokenUnits") with
  | none => rfl
  | some units =>
    cases units with
    | arr units => exact mapM_eq_ok parseUnit_eq units
    | _ => rfl

end Fields

namespace ResponseBalance

structure Balance where
  address : ByteString := []
  bundleHash : ByteString := []
  tokenSlug : ByteString := []
  amount : ByteString := []
  position : ByteString := []
  batchId : ByteString := []
  characters : List ByteString := []
  tokenUnits : List TokenUnit := []

/-- A string or an array, of which the strings are taken. -/
def characters (balanceData : Json) : Throws (List ByteString) :=
  match balanceData.find? (ascii "characters") with
  | some (.str chars) => .ok [chars]
  | some (.arr chars) => do
    let read ← chars.mapM stringOf
    return read.reduceOption
  | _ => .ok []

/-- The strings among the characters. -/
def characterStrings : Option Json → List ByteString
  | some (.str chars) => [chars]
  | some (.arr chars) => chars.filterMap Json.string?
  | _ => []

theorem characters_eq (balanceData : Json) :
    characters balanceData = .ok (characterStrings (balanceData.find? (ascii "characters"))) := by
  rw [characters]
  cases balanceData.find? (ascii "characters") with
  | none => rfl
  | some chars =>
    cases chars with
    | arr chars =>
      refine (Throws.bind_of_ok (mapM_eq_ok stringOf_eq chars) _).trans ?_
      exact congrArg Except.ok List.filterMap_map
    | _ => rfl

def parseRow (balanceData : Json) : Throws Balance := do
  let address ← convertedString balanceData "address"
  let bundleHash ← convertedString balanceData "bundleHash"
  let tokenSlug ← convertedString balanceData "tokenSlug"
  let amount ← convertedString balanceData "amount"
  let position ← convertedString balanceData "position"
  let batchId ← convertedString balanceData "batchId"
  let characters ← characters balanceData
  let tokenUnits ← parseTokenUnits balanceData
  return {
    address := address.getD []
    bundleHash := bundleHash.getD []
    tokenSlug := tokenSlug.getD []
    amount := amount.getD []
    position := position.getD []
    batchId := batchId.getD []
    characters, tokenUnits }

def parseData (data : Json) : Throws (Option Balance) :=
  match data.find? (ascii "Balance") with
  | none => .ok none
  | some balanceData => if balanceData.isNull then .ok none else (parseRow balanceData).map some

/-- The fields that are converted without a guard. -/
def converted : List String := ["address", "bundleHash", "tokenSlug", "amount", "position", "batchId"]

/-- A row with what its strings say. -/
def reading (balanceData : Json) : Balance where
  address := (balanceData.stringAt "address").getD []
  bundleHash := (balanceData.stringAt "bundleHash").getD []
  tokenSlug := (balanceData.stringAt "tokenSlug").getD []
  amount := (balanceData.stringAt "amount").getD []
  position := (balanceData.stringAt "position").getD []
  batchId := (balanceData.stringAt "batchId").getD []
  characters := characterStrings (balanceData.find? (ascii "characters"))
  tokenUnits := parseWalletTokenUnits balanceData

/-- Every converted field that is there is a string. -/
def StringFields (balanceData : Json) : Prop :=
  ∀ key ∈ converted, ∀ value, balanceData.find? (ascii key) = some value → value.isString = true

theorem parseRow_eq {balanceData : Json} (h : StringFields balanceData) : parseRow balanceData = .ok (reading balanceData) := by
  have hfield (key : String) (hkey : key ∈ converted) : convertedString balanceData key = .ok (balanceData.stringAt key) :=
    convertedString_ok_iff.mpr ⟨h key hkey, rfl⟩
  rw [parseRow, Throws.bind_of_ok (hfield "address" (by simp [converted])),
    Throws.bind_of_ok (hfield "bundleHash" (by simp [converted])), Throws.bind_of_ok (hfield "tokenSlug" (by simp [converted])),
    Throws.bind_of_ok (hfield "amount" (by simp [converted])), Throws.bind_of_ok (hfield "position" (by simp [converted])),
    Throws.bind_of_ok (hfield "batchId" (by simp [converted])), Throws.bind_of_ok (characters_eq balanceData),
    Throws.bind_of_ok (parseTokenUnits_eq balanceData)]
  rfl

theorem stringFields_of_parseRow {balanceData : Json} {b : Balance} (h : parseRow balanceData = .ok b) :
    StringFields balanceData := by
  obtain ⟨_, haddress, h⟩ := Throws.bind_ok h
  obtain ⟨_, hbundleHash, h⟩ := Throws.bind_ok h
  obtain ⟨_, htokenSlug, h⟩ := Throws.bind_ok h
  obtain ⟨_, hamount, h⟩ := Throws.bind_ok h
  obtain ⟨_, hposition, h⟩ := Throws.bind_ok h
  obtain ⟨_, hbatchId, h⟩ := Throws.bind_ok h
  intro key hkey
  simp only [converted, List.mem_cons, List.not_mem_nil, or_false] at hkey
  obtain rfl | rfl | rfl | rfl | rfl | rfl := hkey
  · exact (convertedString_ok_iff.mp haddress).1
  · exact (convertedString_ok_iff.mp hbundleHash).1
  · exact (convertedString_ok_iff.mp htokenSlug).1
  · exact (convertedString_ok_iff.mp hamount).1
  · exact (convertedString_ok_iff.mp hposition).1
  · exact (convertedString_ok_iff.mp hbatchId).1

end ResponseBalance

namespace ResponseWalletList

structure Wallet where
  address : ByteString := []
  bundleHash : ByteString := []
  token : ByteString := []
  position : ByteString := []
  pubkey : ByteString := []
  balance : ByteString := []
  batchId : ByteString := []
  tokenUnits : List TokenUnit := []

/-- A field, or the older one where the field is not a string. -/
def stringOrOlder (walletData : Json) (key older : String) : Throws (Option ByteString) := do
  match ← guardedString walletData key with
  | some s => return some s
  | none => guardedString walletData older

def parseRow (walletData : Json) : Throws Wallet := do
  let address ← guardedString walletData "address"
  let bundleHash ← guardedString walletData "bundleHash"
  let token ← stringOrOlder walletData "tokenSlug" "token"
  let position ← guardedString walletData "position"
  let pubkey ← guardedString walletData "pubkey"
  let balance ← stringOrOlder walletData "balance" "amount"
  let batchId ← guardedString walletData "batchId"
  let tokenUnits ← parseTokenUnits walletData
  return {
    address := address.getD []
    bundleHash := bundleHash.getD []
    token := token.getD []
    position := position.getD []
    pubkey := pubkey.getD []
    balance := balance.getD []
    batchId := batchId.getD []
    tokenUnits }

/-- The older key is read only where the newer one is not there at all. -/
def rowsKey (data : Json) : String := if data.contains (ascii "wallets") then "wallets" else "WalletList"

def parseData (data : Json) : Throws (List Wallet) :=
  match data.find? (ascii (rowsKey data)) with
  | some (.arr rows) => rows.mapM parseRow
  | _ => .ok []

/-- A row with what its strings say. -/
def reading (walletData : Json) : Wallet where
  address := (walletData.stringAt "address").getD []
  bundleHash := (walletData.stringAt "bundleHash").getD []
  token := ((walletData.stringAt "tokenSlug").or (walletData.stringAt "token")).getD []
  position := (walletData.stringAt "position").getD []
  pubkey := (walletData.stringAt "pubkey").getD []
  balance := ((walletData.stringAt "balance").or (walletData.stringAt "amount")).getD []
  batchId := (walletData.stringAt "batchId").getD []
  tokenUnits := parseWalletTokenUnits walletData

theorem stringOrOlder_eq (walletData : Json) (key older : String) :
    stringOrOlder walletData key older = .ok ((walletData.stringAt key).or (walletData.stringAt older)) := by
  rw [stringOrOlder, Throws.bind_of_ok (guardedString_eq walletData key)]
  cases walletData.stringAt key with
  | none => exact guardedString_eq walletData older
  | some s => rfl

theorem parseRow_eq (walletData : Json) : parseRow walletData = .ok (reading walletData) := by
  rw [parseRow, Throws.bind_of_ok (guardedString_eq walletData "address"),
    Throws.bind_of_ok (guardedString_eq walletData "bundleHash"),
    Throws.bind_of_ok (stringOrOlder_eq walletData "tokenSlug" "token"),
    Throws.bind_of_ok (guardedString_eq walletData "position"), Throws.bind_of_ok (guardedString_eq walletData "pubkey"),
    Throws.bind_of_ok (stringOrOlder_eq walletData "balance" "amount"),
    Throws.bind_of_ok (guardedString_eq walletData "batchId"), Throws.bind_of_ok (parseTokenUnits_eq walletData)]
  rfl

/-- The readings of the rows of a member. -/
def rowReadings : Option Json → List Wallet
  | some (.arr rows) => rows.map reading
  | _ => []

theorem parseData_eq (data : Json) : parseData data = .ok (rowReadings (data.find? (ascii (rowsKey data)))) := by
  rw [parseData]
  cases data.find? (ascii (rowsKey data)) with
  | none => rfl
  | some rows =>
    cases rows with
    | arr rows => exact mapM_eq_ok parseRow_eq rows
    | _ => rfl

end ResponseWalletList

namespace ResponseContinuId

def parseData (data : Json) : Throws (Option Response.ContinuID) :=
  match data.find? (ascii "ContinuId") with
  | none => .ok none
  | some continuData =>
    if continuData.isObject then do
      let position ← guardedString continuData "position"
      let address ← guardedString continuData "address"
      let bundleHash ← guardedString continuData "bundleHash"
      return some { bundle := bundleHash.getD [], position := position.getD [], walletAddress := address.getD [] }
    else .ok none

theorem parseData_eq (data : Json) : parseData data = .ok (Response.continuId data) := by
  rw [parseData, Response.continuId]
  cases data.find? (ascii "ContinuId") with
  | none => rfl
  | some continuData =>
    cases hobject : continuData.isObject with
    | false => simp only [hobject, Bool.false_eq_true, ↓reduceIte]
    | true =>
      simp only [hobject, ↓reduceIte, guardedString_eq]
      rfl

end ResponseContinuId

/-- A string of the ProposeMolecule object. -/
def proposeString (data : Json) (key : String) : Throws (Option ByteString) :=
  match data.find? (ascii "ProposeMolecule") with
  | none => .ok none
  | some proposal => guardedString proposal key

theorem proposeString_eq (data : Json) (key : String) : proposeString data key = .ok (Response.proposeMember data key) := by
  rw [proposeString, Response.proposeMember]
  cases data.find? (ascii "ProposeMolecule") with
  | none => rfl
  | some proposal => exact guardedString_eq proposal key

/-- Whether a status accepts the molecule. -/
def acceptingStatus (status : ByteString) : Bool := status = ascii "accepted" || status = ascii "success"

namespace ResponseCreateToken

def isCreated (data : Json) : Throws Bool :=
  match data.find? (ascii "ProposeMolecule") with
  | none => .ok false
  | some proposal => do
    let status ← convertedString proposal "status"
    return (status.map acceptingStatus).getD false

/-- The slug that `createToken` stored. -/
def getTokenSlug (tokenSlug : ByteString) (_data : Json) : Throws ByteString := .ok tokenSlug

/-- The amount that `createToken` stored. -/
def getAmount (amount : ByteString) (_data : Json) : Throws ByteString := .ok (if amount = [] then ascii "0" else amount)

end ResponseCreateToken

namespace ResponseTransferTokens

def isTransferred (data : Json) : Throws Bool := do
  let status ← proposeString data "status"
  return (status.map acceptingStatus).getD false

def getTransactionHash (data : Json) : Throws ByteString := do
  let molecularHash ← proposeString data "molecularHash"
  return molecularHash.getD []

def getAmount (_data : Json) : Throws ByteString := .ok (ascii "0")

theorem isTransferred_eq (data : Json) :
    isTransferred data = .ok (((Response.proposeMember data "status").map acceptingStatus).getD false) := by
  rw [isTransferred, Throws.bind_of_ok (proposeString_eq data "status")]
  rfl

theorem getTransactionHash_eq (data : Json) :
    getTransactionHash data = .ok ((Response.proposeMember data "molecularHash").getD []) := by
  rw [getTransactionHash, Throws.bind_of_ok (proposeString_eq data "molecularHash")]
  rfl

end ResponseTransferTokens

namespace ResponseRequestAuthorization

/-- The payload of the proposal; an empty object where it does not parse. -/
def parseProposePayload (F : Json.FloatText) (data : Json) : Throws Json := do
  let payload ← proposeString data "payload"
  return (payload.bind (Json.parse F)).getD (.obj [])

def getAuthToken (F : Json.FloatText) (data : Json) : Throws ByteString := do
  let payload ← parseProposePayload F data
  let token ← guardedString payload "token"
  return token.getD []

def getPublicKey (F : Json.FloatText) (data : Json) : Throws ByteString := do
  let payload ← parseProposePayload F data
  let pubkey ← guardedString payload "pubkey"
  return pubkey.getD []

def isAuthorized (F : Json.FloatText) (data : Json) : Throws Bool := do
  let token ← getAuthToken F data
  return token ≠ []

theorem parseProposePayload_eq (F : Json.FloatText) (data : Json) :
    parseProposePayload F data = .ok (Response.parseProposePayload F data) := by
  rw [parseProposePayload, Throws.bind_of_ok (proposeString_eq data "payload"), Response.parseProposePayload]
  cases Response.proposeMember data "payload" with
  | none => rfl
  | some payload => rfl

theorem getAuthToken_eq (F : Json.FloatText) (data : Json) : getAuthToken F data = .ok (Response.getAuthToken F data) := by
  rw [getAuthToken, Throws.bind_of_ok (parseProposePayload_eq F data), Throws.bind_of_ok (guardedString_eq _ "token")]
  rfl

theorem getPublicKey_eq (F : Json.FloatText) (data : Json) :
    getPublicKey F data = .ok (((Response.parseProposePayload F data).stringAt "pubkey").getD []) := by
  rw [getPublicKey, Throws.bind_of_ok (parseProposePayload_eq F data), Throws.bind_of_ok (guardedString_eq _ "pubkey")]
  rfl

theorem isAuthorized_eq (F : Json.FloatText) (data : Json) : isAuthorized F data = .ok (Response.isAuthorized F data) := by
  rw [isAuthorized, Throws.bind_of_ok (getAuthToken_eq F data)]
  rfl

end ResponseRequestAuthorization

namespace ResponseProposeMolecule

def getMolecularHash (data : Json) : Throws ByteString := do
  let molecularHash ← proposeString data "molecularHash"
  return molecularHash.getD []

def getStatus (data : Json) : Throws ByteString := do
  let status ← proposeString data "status"
  return status.getD (ascii "unknown")

def isAccepted (data : Json) : Throws Bool := do
  let status ← getStatus data
  return acceptingStatus status

def getRejectionReason (data : Json) : Throws ByteString := do
  let reason ← proposeString data "reason"
  return reason.getD []

theorem getMolecularHash_eq (data : Json) :
    getMolecularHash data = .ok ((Response.proposeMember data "molecularHash").getD []) := by
  rw [getMolecularHash, Throws.bind_of_ok (proposeString_eq data "molecularHash")]
  rfl

theorem getStatus_eq (data : Json) : getStatus data = .ok (Response.getStatus data) := by
  rw [getStatus, Throws.bind_of_ok (proposeString_eq data "status")]
  rfl

theorem isAccepted_eq (data : Json) : isAccepted data = .ok (Response.isAccepted data) := by
  rw [isAccepted, Throws.bind_of_ok (getStatus_eq data)]
  rfl

theorem getRejectionReason_eq (data : Json) :
    getRejectionReason data = .ok ((Response.proposeMember data "reason").getD []) := by
  rw [getRejectionReason, Throws.bind_of_ok (proposeString_eq data "reason")]
  rfl

end ResponseProposeMolecule

end KnishIO
