import KnishIO.Client

open ByteString

namespace KnishIO

/-- A wallet row of a reply to the Balance query. -/
structure TokenWalletInfo where
  position : ByteString := []
  address : ByteString := []
  balance : ByteString := []
  batchId : ByteString := []
  found : Bool := false
  tokenUnits : List TokenUnit := []
  deriving DecidableEq, Repr

/-- Sets the balance and the units of a wallet to those of its row. -/
def TokenWalletInfo.fund (info : TokenWalletInfo) (ledger : Wallet) : Wallet :=
  { ledger with balance := info.balance, tokenUnits := info.tokenUnits }

section Replies

/-- Only string metas are kept. -/
def parseTokenUnit (u : Json) : TokenUnit where
  id := (u.stringAt "id").getD []
  name := (u.stringAt "name").getD []
  metas := ((u.find? (ascii "metas")).map Json.members).getD [] |>.filterMap fun m => m.2.string?.map fun s => (m.1, s)

def parseWalletTokenUnits (walletObj : Json) : List TokenUnit :=
  match walletObj.find? (ascii "tokenUnits") with
  | some (.arr units) => units.map parseTokenUnit
  | _ => []

/-- An object under `data` of a successful reply. -/
def Reply.row (F : Json.FloatText) (key : String) (reply : Reply) : Option Json :=
  if !reply.isSuccess then none
  else
    match Json.parse F reply.body with
    | none => none
    | some body =>
      ((body.find? (ascii "data")).bind (·.find? (ascii key))).bind fun row => if row.isObject then some row else none

/-- Position and address of the pointer; a position that is not 64 characters long counts as none. -/
def Reply.pointer (F : Json.FloatText) (reply : Reply) : ByteString × ByteString :=
  match reply.row F "ContinuId" with
  | none => ([], [])
  | some cid =>
    let position := (cid.stringAt "position").getD []
    if position.length = 64 then (position, (cid.stringAt "address").getD []) else ([], [])

/-- A spendable wallet has a position and an address. -/
def Reply.tokenWallet (F : Json.FloatText) (reply : Reply) : TokenWalletInfo :=
  match reply.row F "Balance" with
  | none => {}
  | some bal =>
    let position := (bal.stringAt "position").getD []
    let address := (bal.stringAt "address").getD []
    { position, address
      balance := (bal.stringAt "amount").getD []
      batchId := (bal.stringAt "batchId").getD []
      found := position ≠ [] && address ≠ []
      tokenUnits := parseWalletTokenUnits bal }

end Replies

section Amounts

/-- `static_cast<long long>` of a double; out of range it has no meaning. -/
def toLongLong : BinaryFloat.Value → Throws Int
  | .finite q => signed 64 (if 0 ≤ q then ⌊q⌋ else ⌈q⌉)
  | _ => .error .undefinedBehavior

def isPositive : BinaryFloat.Value → Bool
  | .finite q => 0 < q
  | .inf negative => !negative
  | .nan => false

/-- The balance the amount is compared with: zero where it does not read. -/
def spendable (balance : ByteString) : Int :=
  match CInteger.stoll balance with
  | .ok i => i
  | .error _ => 0

structure TransferRecipient where
  bundleHash : ByteString
  amount : BinaryFloat.Value := .finite 0
  batchId : ByteString := []
  units : List ByteString := []
  deriving DecidableEq

/-- A recipient of units gets as many of them as are listed. -/
def TransferRecipient.amountLL (r : TransferRecipient) : Throws Int :=
  if r.units ≠ [] then
    if isPositive r.amount then
      .error (.knishio (ascii "TransferRecipient accepts either units (stackable) or amount (fungible), not both"))
    else .ok r.units.length
  else toLongLong r.amount

/-- The amounts with their running total. -/
def recipientAmounts : Int → List TransferRecipient → Throws (List ByteString × Int)
  | total, [] => .ok ([], total)
  | total, r :: recipients => do
    let amt ← r.amountLL
    let total ← signed 64 (total + amt)
    let rest ← recipientAmounts total recipients
    return (Decimal.ofInt amt :: rest.1, rest.2)

end Amounts

/-- The version of the wallets made for the signer of a wallet. -/
def Config.successorOtsVersion (config : Config) (sourceOtsVersion : Int) : Int := max sourceOtsVersion config.otsVersion

/-- The version at which a ledger wallet of this client was derived. -/
def Client.bindOwnWalletOtsVersion (H : Shake256) (client : Client) (token position address : ByteString) : Throws Int :=
  if position = [] ∨ address = [] then .ok client.config.otsVersion
  else
    match client.secret with
    | none => .error (.knishio (ascii "No secret available"))
    | some secret =>
      match Wallet.detectOtsVersion H secret.bytes token position address client.config.otsVersion with
      | .error e => .error e
      | .ok (some version) => .ok version
      | .ok none => .error (.wallet (ascii "KnishIO: wallet " ++ address ++
          ascii " is not derived from this secret at position " ++ position ++ ascii " under OTS version 1 or 2."))

/-- What `submitMolecule` throws for an exception of the check. -/
def recast (e : Exception) : Exception := if e.kind = .runtimeError then .knishio e.what else e

/-- A molecule without atoms whose two wallets are set. -/
def Molecule.withWallets (cellSlug : ByteString) (createdAt : Int64) (source remainder : Wallet) : Molecule :=
  { cellSlug, createdAt, sourceWallet := some source, remainderWallet := some remainder }

section Submission

variable {E : Type} (S : Setting E)

/-- A molecule with its two wallets set and filled by one of the builders. -/
def assemble (cellSlug : ByteString) (source remainder : Wallet) (b : Molecule.Builder) : Run E Molecule := do
  let clock := S.clock (← get).drawn
  let built ← Act.ofExcept ((b.run clock).run (Molecule.withWallets cellSlug (clock 0) source remainder))
  return built.2

/-- Signs and sends; with the check, a molecule that does not pass it is not sent. -/
def submitMolecule (molecule : Molecule) (checkBeforeSend : Bool := true) : Run E Response := do
  match (← get).client.secret with
  | none => throw (.knishio (ascii "No secret available for signing molecule"))
  | some secret =>
    let (_, signed) ← Act.ofExcept ((Molecule.sign S.hash secret.bytes).run molecule)
    Act.ofExcept (if checkBeforeSend then (Molecule.check S.hash signed).mapError recast else .ok ())
    let _moleculeJson ← Act.ofExcept signed.toJson
    let reply ← mutate S secret signed
    Act.ofExcept (reply.proposal S.floatText "Molecule proposal")

/-- The USER wallet at the pointer, or a fresh one; every failure of the query counts as no pointer. -/
def continuIdSourceWallet (bundle : ByteString) (mlKemParameterSet : Int) : Run E Wallet := do
  let (position, address) ← tryCatch (return (← query S (.continuId bundle)).pointer S.floatText) fun _ => return ([], [])
  let secret ← secretValue
  let client := (← get).client
  if position = [] then newWallet S secret (ascii "USER") [] mlKemParameterSet client.config.otsVersion
  else
    let version ← Act.ofExcept (client.bindOwnWalletOtsVersion S.hash (ascii "USER") position address)
    newWallet S secret (ascii "USER") position mlKemParameterSet version

/-- Every failure but that of the encrypted transport counts as not found. -/
def resolveTokenWallet (bundle token : ByteString) (buffer : Bool := false) : Run E TokenWalletInfo :=
  tryCatch (return (← query S (.balance bundle token buffer)).tokenWallet S.floatText)
    fun e => if e.kind = .encryptedTransport then throw e else return {}

/-- The wallet of a row, which carries the balance, the batch id and the units only where the operation sets them. -/
def ledgerWallet (secret : Secret) (token : ByteString) (mlKemParameterSet : Int) (info : TokenWalletInfo) :
    Run E Wallet := do
  let version ← Act.ofExcept ((← get).client.bindOwnWalletOtsVersion S.hash token info.position info.address)
  newWallet S secret token info.position mlKemParameterSet version

end Submission

section Operations

variable {E : Type} (S : Setting E)

/-- The metas of a token whose units are the supply. -/
def stackableMeta (units : List ByteString) : Throws Metas :=
  (dumpJson (.arr (units.map fun u => .arr [.str u, .str u, .obj []]))).map fun json =>
    [(ascii "splittable", ascii "1"), (ascii "decimals", ascii "0"), (ascii "tokenUnits", json)]

/-- `tokenMeta` stands in the iteration order of the source's unordered map. -/
def createToken (token : ByteString) (amount : BinaryFloat.Value) (tokenMeta : Metas) (units : List ByteString) :
    Run E Response := do
  ensureAuthenticated
  let secret ← secretValue
  let bundle ← getBundle
  let source ← continuIdSourceWallet S bundle 1024
  let config := (← get).client.config
  let recipient ← newWallet S secret token [] 1024 config.otsVersion
  let remainder ← newWallet S secret (ascii "USER") [] 1024 (config.successorOtsVersion source.otsVersion)
  let supply ← Act.ofExcept (toLongLong amount)
  let fungibility := (tokenMeta.lookup (ascii "fungibility")).getD []
  let stackable := units ≠ [] && (fungibility = ascii "stackable" || fungibility = ascii "nonfungible" ||
    fungibility = ascii "non-fungible")
  let unitMeta ← Act.ofExcept (if stackable then stackableMeta units else .ok [])
  let supply : Int := if stackable then units.length else supply
  let batchId ← (if stackable && fungibility = ascii "stackable" then randomHex S else pure recipient.batchId : Run E ByteString)
  let molecule ← assemble S (config.cellSlug.getD []) source remainder
    (.initTokenCreation source { recipient with batchId } (Decimal.ofInt supply) (tokenMeta ++ unitMeta))
  let proposeResp ← submitMolecule S molecule
  return { data := proposeResp.data }

def createWallet (token : ByteString) : Run E Response := do
  ensureAuthenticated
  let secret ← secretValue
  let bundle ← getBundle
  let config := (← get).client.config
  let source ← continuIdSourceWallet S bundle config.mlKemParameterSet
  let wallet ← newWallet S secret token [] config.mlKemParameterSet config.otsVersion
  let remainder ← newWallet S secret (ascii "USER") [] config.mlKemParameterSet
    (config.successorOtsVersion source.otsVersion)
  let molecule ← assemble S (config.cellSlug.getD []) source remainder (.initWalletCreation source wallet [])
  submitMolecule S molecule

def createMeta (metaType metaId : ByteString) («meta» : Metas) : Run E Response := do
  ensureAuthenticated
  let secret ← secretValue
  let bundle ← getBundle
  let config := (← get).client.config
  let source ← continuIdSourceWallet S bundle config.mlKemParameterSet
  let remainder ← newWallet S secret (ascii "USER") [] config.mlKemParameterSet
    (config.successorOtsVersion source.otsVersion)
  let molecule ← assemble S (config.cellSlug.getD []) source remainder (.initMeta source «meta» metaType metaId)
  submitMolecule S molecule

def claimShadowWallet (token batchId : ByteString) : Run E Response := do
  ensureAuthenticated
  let secret ← secretValue
  let bundle ← getBundle
  let config := (← get).client.config
  let source ← continuIdSourceWallet S bundle config.mlKemParameterSet
  let claimWallet ← newWallet S secret token [] config.mlKemParameterSet config.otsVersion
  let remainder ← newWallet S secret (ascii "USER") [] config.mlKemParameterSet
    (config.successorOtsVersion source.otsVersion)
  let molecule ← assemble S (config.cellSlug.getD []) source remainder
    (.initShadowWalletClaim source { claimWallet with batchId })
  submitMolecule S molecule

/-- The wallet of the recipient's bundle, which has no position and no address here. -/
def shadowOf (wallet : Wallet) (bundle batchId : ByteString) : Wallet :=
  { wallet with bundle, batchId, address := [], position := [] }

def transferToken (bundleHash token : ByteString) (amount : BinaryFloat.Value) (batchId : ByteString)
    (units : List ByteString) : Run E Response := do
  ensureAuthenticated
  let secret ← secretValue
  let senderBundle ← getBundle
  let src ← resolveTokenWallet S senderBundle token
  Act.require src.found (.knishio (ascii "No spendable wallet for token " ++ token))
  let amountLL ← Act.ofExcept (toLongLong amount)
  Act.require (amountLL ≤ spendable src.balance) (.knishio (ascii "Insufficient balance for token " ++ token))
  let config := (← get).client.config
  let ledger ← ledgerWallet S secret token 1024 src
  let drawn ← newWallet S secret token [] 1024 1
  let fresh ← newWallet S secret token [] 1024 (config.successorOtsVersion ledger.otsVersion)
  let recipient := shadowOf drawn bundleHash batchId
  -- the source, the remainder and the recipient with their units
  let split := Wallet.splitUnits (src.fund ledger) units fresh (some recipient)
  let molecule ← assemble S (config.cellSlug.getD []) split.1 split.2.1
    (.initValue split.1 (split.2.2.getD recipient) split.2.1 (Decimal.ofInt amountLL))
  submitMolecule S molecule

/-- The shadow wallets of the recipients; each constructor call draws a position. -/
def recipientShadows (secret : Secret) (token : ByteString) : List TransferRecipient → Run E (List Wallet)
  | [] => return []
  | r :: recipients => do
    let drawn ← newWallet S secret token [] 1024 1
    let rest ← recipientShadows secret token recipients
    return shadowOf drawn r.bundleHash r.batchId :: rest

def transferTokens (token : ByteString) (recipients : List TransferRecipient) : Run E Response := do
  ensureAuthenticated
  let secret ← secretValue
  let senderBundle ← getBundle
  let (amounts, total) ← Act.ofExcept (recipientAmounts 0 recipients)
  let src ← resolveTokenWallet S senderBundle token
  Act.require src.found (.knishio (ascii "No spendable wallet for token " ++ token))
  Act.require (total ≤ spendable src.balance) (.knishio (ascii "Insufficient balance for token " ++ token))
  let config := (← get).client.config
  let ledger ← ledgerWallet S secret token 1024 src
  let shadows ← recipientShadows S secret token recipients
  let fresh ← newWallet S secret token [] 1024 (config.successorOtsVersion ledger.otsVersion)
  -- the source, the recipients and the remainder with their units
  let split := Wallet.splitUnitsMulti (src.fund ledger) (recipients.map (·.units)) shadows fresh
  let molecule ← assemble S (config.cellSlug.getD []) split.1 split.2.2
    (.initValues split.1 split.2.1 amounts split.2.2)
  submitMolecule S molecule

def burnToken (token : ByteString) (amount : BinaryFloat.Value) (units : List ByteString) : Run E Response := do
  ensureAuthenticated
  let secret ← secretValue
  let senderBundle ← getBundle
  let src ← resolveTokenWallet S senderBundle token
  Act.require src.found (.knishio (ascii "No spendable wallet for token " ++ token))
  let amountLL ← Act.ofExcept (toLongLong amount)
  Act.require (amountLL ≤ spendable src.balance) (.knishio (ascii "Insufficient balance for token " ++ token))
  let config := (← get).client.config
  let ledger ← ledgerWallet S secret token 1024 src
  let drawn ← newWallet S secret token [] 1024 ledger.otsVersion
  let fresh ← newWallet S secret token [] 1024 (config.successorOtsVersion ledger.otsVersion)
  let split := Wallet.splitUnits (src.fund ledger) units fresh none
  let molecule ← assemble S (config.cellSlug.getD []) split.1 split.2.1
    (.initValue split.1 (shadowOf drawn Molecule.zeroBundle []) split.2.1 (Decimal.ofInt amountLL))
  submitMolecule S molecule

def depositBufferToken (token : ByteString) (amount : BinaryFloat.Value) (tradeRates : Metas) : Run E Response := do
  ensureAuthenticated
  let secret ← secretValue
  let senderBundle ← getBundle
  let src ← resolveTokenWallet S senderBundle token
  Act.require src.found (.knishio (ascii "No spendable wallet for token " ++ token))
  let amountLL ← Act.ofExcept (toLongLong amount)
  Act.require (amountLL ≤ spendable src.balance) (.knishio (ascii "Insufficient balance for token " ++ token))
  let config := (← get).client.config
  let ledger ← ledgerWallet S secret token 1024 src
  let source := { ledger with balance := src.balance }
  let buffer ← newWallet S secret token [] 1024 (config.successorOtsVersion source.otsVersion)
  let remainder ← newWallet S secret token [] 1024 (config.successorOtsVersion source.otsVersion)
  let molecule ← assemble S (config.cellSlug.getD []) source remainder
    (.initDepositBuffer source buffer remainder (Decimal.ofInt amountLL) tradeRates)
  submitMolecule S molecule

/-- The caller's buffer wallet, or the one of the bundle's buffer row. -/
def bufferSource (secret : Secret) (senderBundle token : ByteString) (mlKemParameterSet : Int) :
    Option Wallet → Run E Wallet
  | some given => pure given
  | none => do
    let src ← resolveTokenWallet S senderBundle token true
    Act.require src.found (.knishio (ascii "No spendable buffer wallet for token " ++ token))
    let ledger ← ledgerWallet S secret token mlKemParameterSet src
    return { src.fund ledger with batchId := src.batchId }

/-- The withdrawal from a source wallet. -/
def withdrawFrom (secret : Secret) (senderBundle token : ByteString) (amount : BinaryFloat.Value) (config : Config)
    (source : Wallet) : Run E Response := do
  let amountLL ← Act.ofExcept (toLongLong amount)
  Act.require (amountLL ≤ spendable source.balance) (.knishio (ascii "Insufficient buffer balance for token " ++ token))
  let drawn ← newWallet S secret token [] config.mlKemParameterSet 1
  let batchId ← (if source.batchId = [] then pure [] else randomHex S : Run E ByteString)
  let fresh ← newWallet S secret token [] config.mlKemParameterSet (config.successorOtsVersion source.otsVersion)
  let remainder := { fresh with batchId := source.batchId }
  let molecule ← assemble S (config.cellSlug.getD []) source remainder
    (.initWithdrawBuffer source [shadowOf drawn senderBundle batchId] [Decimal.ofInt amountLL] remainder)
  submitMolecule S molecule

def withdrawBufferToken (token : ByteString) (amount : BinaryFloat.Value) (sourceWallet : Option Wallet) :
    Run E Response := do
  ensureAuthenticated
  let secret ← secretValue
  let senderBundle ← getBundle
  let config := (← get).client.config
  let source ← bufferSource S secret senderBundle token config.mlKemParameterSet sourceWallet
  withdrawFrom S secret senderBundle token amount config source

/-- The identity's existing wallet for the token, or a new one. -/
def creditedWallet (secret : Secret) (token : ByteString) (config : Config) (existing : TokenWalletInfo) : Run E Wallet :=
  if existing.found then do
    let ledger ← ledgerWallet S secret token config.mlKemParameterSet existing
    return { ledger with address := existing.address, batchId := existing.batchId }
  else newWallet S secret token [] config.mlKemParameterSet config.otsVersion

def replenishToken (token : ByteString) (amount : BinaryFloat.Value) (units : List ByteString) : Run E Response := do
  ensureAuthenticated
  let secret ← secretValue
  let config := (← get).client.config
  let amountLL ← Act.ofExcept (toLongLong amount)
  Act.require (units = [] → 0 < amountLL) (.knishio (ascii "Amount to replenish must be positive"))
  Act.require (units ≠ [] → amountLL = 0 ∨ amountLL = units.length)
    (.knishio (ascii "Replenish amount must be omitted or equal the unit count"))
  let bundle ← getBundle
  let source ← continuIdSourceWallet S bundle config.mlKemParameterSet
  let remainder ← newWallet S secret (ascii "USER") [] config.mlKemParameterSet
    (config.successorOtsVersion source.otsVersion)
  let existing ← resolveTokenWallet S bundle token
  let credited ← creditedWallet S secret token config existing
  let molecule ← assemble S (config.cellSlug.getD []) source remainder
    (.initTokenReplenish source credited (Decimal.ofInt amountLL) (units.map fun id => { id, name := id }))
  submitMolecule S molecule

/-- The batch ids that the fusion draws for a source that has one. -/
def fusionBatchIds (source : Wallet) : Run E (ByteString × ByteString) :=
  if source.batchId = [] then pure ([], [])
  else do
    let burned ← randomHex S
    let fused ← randomHex S
    return (burned, fused)

def fuseToken (bundleHash tokenSlug newTokenUnitId : ByteString) (fusedTokenUnitIds : List ByteString) :
    Run E Response := do
  ensureAuthenticated
  let secret ← secretValue
  let senderBundle ← getBundle
  let config := (← get).client.config
  let src ← resolveTokenWallet S senderBundle tokenSlug
  Act.require src.found (.knishio (ascii "No spendable wallet for token " ++ tokenSlug))
  let ledger ← ledgerWallet S secret tokenSlug config.mlKemParameterSet src
  let source := { src.fund ledger with batchId := src.batchId }
  let own ← newWallet S secret tokenSlug [] config.mlKemParameterSet config.otsVersion
  let recipient := if bundleHash ≠ senderBundle then shadowOf own bundleHash own.batchId else own
  let remainder ← newWallet S secret tokenSlug [] config.mlKemParameterSet (config.successorOtsVersion source.otsVersion)
  let drawn ← fusionBatchIds S source
  let molecule ← assemble S (config.cellSlug.getD []) source remainder
    (.initTokenFusion drawn source recipient remainder fusedTokenUnitIds newTokenUnitId)
  submitMolecule S molecule

end Operations

end KnishIO
