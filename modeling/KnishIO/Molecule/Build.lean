import KnishIO.Molecule

open ByteString

namespace KnishIO

/-- Ordered key and value pairs. -/
abbrev Metas := List (ByteString × ByteString)

/-- The constructor, called at a time of the clock. -/
def Atom.new (createdAt : Int64) (position walletAddress : ByteString) (isotope : String)
    (token value batchId metaType metaId : ByteString) («meta» : Metas) (index : Int32) : Atom :=
  { position, walletAddress, isotope := ascii isotope, token, value, batchId, metaType, metaId, «meta», createdAt, index }

/-- A number conversion; the exceptions carry the name of the function. -/
def conversion (name : String) : Except CInteger.ConversionError Int → Throws Int
  | .ok i => .ok i
  | .error .invalidArgument => .error (.invalidArgument (ascii name))
  | .error .outOfRange => .error (.outOfRange (ascii name))

def stoi (s : ByteString) : Throws Int := conversion "stoi" (CInteger.stoi s)

def stoll (s : ByteString) : Throws Int := conversion "stoll" (CInteger.stoll s)

/-- The result of signed arithmetic of a width; overflow has no meaning. -/
def signed (width : Nat) (i : Int) : Throws Int :=
  if -2 ^ (width - 1) ≤ i ∧ i < 2 ^ (width - 1) then .ok i else .error .undefinedBehavior

namespace Molecule

/-- The prefixed wallet keys; the batch id and the public key only where there is one. -/
def buildWalletMetaKeys (wallet : Wallet) : Metas :=
  [(ascii "walletTokenSlug", wallet.token), (ascii "walletBundleHash", wallet.bundle),
    (ascii "walletAddress", wallet.address), (ascii "walletPosition", wallet.position)] ++
  (if wallet.batchId = [] then [] else [(ascii "walletBatchId", wallet.batchId)]) ++
  (if wallet.mlkemPublicKey = [] then [] else [(ascii "walletPubkey", toBase64 wallet.mlkemPublicKey)]) ++
  [(ascii "walletCharacters", ascii "BASE64")]

/-- The bundle a burn credits. -/
def zeroBundle : ByteString := List.replicate 64 48

/-- The meta of a unit list, none for an empty one. -/
def unitsMeta (units : List TokenUnit) : Throws Metas :=
  if units = [] then .ok [] else (Wallet.unitsJson units).map fun json => [(ascii "tokenUnits", json)]

section Builders

/-- `molecularHash.clear()`. -/
def clearHash : Act Exception Molecule Unit := modify fun m => { m with molecularHash := [] }

def pushAtom (atom : Atom) : Act Exception Molecule Unit := modify fun m => { m with atoms := m.atoms ++ [atom] }

/-- `return this->atoms`. -/
def builtAtoms : Act Exception Molecule (List Atom) := do return (← get).atoms

variable (clock : Nat → Int64)

/-- The ContinuID atom, of the remainder wallet or, without one, of the signing wallet. -/
def addContinuIdAtom (sourceWallet : Wallet) (index : Nat) : Act Exception Molecule Unit := do
  let (wallet, continuIdMeta) : Wallet × Metas :=
    match (← get).remainderWallet with
    | none => (sourceWallet, [])
    | some remainderWallet =>
      (remainderWallet, [(ascii "previousPosition", sourceWallet.position)] ++
        (if remainderWallet.mlkemPublicKey = [] then [] else [(ascii "pubkey", toBase64 remainderWallet.mlkemPublicKey)]) ++
        [(ascii "characters", ascii "BASE64")])
  pushAtom (Atom.new (clock index) wallet.position wallet.address "I" wallet.token [] [] (ascii "walletBundle")
    wallet.bundle continuIdMeta (Int32.ofNat index))

def initValue (sourceWallet recipientWallet remainderWallet : Wallet) (value : ByteString) :
    Act Exception Molecule (List Atom) := do
  clearHash
  let sourceMeta ← Act.ofExcept (unitsMeta sourceWallet.tokenUnits)
  pushAtom (Atom.new (clock 0) sourceWallet.position sourceWallet.address "V" sourceWallet.token
    (ascii "-" ++ sourceWallet.balance) sourceWallet.batchId [] [] sourceMeta 0)
  let recipientMeta ← Act.ofExcept (unitsMeta recipientWallet.tokenUnits)
  pushAtom (Atom.new (clock 1) recipientWallet.position recipientWallet.address "V" recipientWallet.token value
    recipientWallet.batchId (ascii "walletBundle") recipientWallet.bundle recipientMeta 1)
  let remainderMeta ← Act.ofExcept (unitsMeta remainderWallet.tokenUnits)
  let balance ← Act.ofExcept (stoi sourceWallet.balance)
  let spent ← Act.ofExcept (stoi value)
  let remainderAmount ← Act.ofExcept (signed 32 (balance - spent))
  pushAtom (Atom.new (clock 2) remainderWallet.position remainderWallet.address "V" remainderWallet.token
    (Decimal.ofInt remainderAmount) remainderWallet.batchId (ascii "walletBundle") remainderWallet.bundle remainderMeta 2)
  builtAtoms

/-- The loop over the recipients, from an atom index and a running total on. A missing amount is read
past the end of the vector. -/
def creditRecipients (token : Wallet → ByteString) (recipientMeta : Wallet → Throws Metas) :
    Nat → Int → List Wallet → List ByteString → Act Exception Molecule (Nat × Int)
  | index, total, [], _ => pure (index, total)
  | _, _, _ :: _, [] => throw .undefinedBehavior
  | index, total, recipientWallet :: recipientWallets, amount :: amounts => do
    let added ← Act.ofExcept (stoll amount)
    let total ← Act.ofExcept (signed 64 (total + added))
    let metas ← Act.ofExcept (recipientMeta recipientWallet)
    pushAtom (Atom.new (clock index) recipientWallet.position recipientWallet.address "V" (token recipientWallet) amount
      recipientWallet.batchId (ascii "walletBundle") recipientWallet.bundle metas (Int32.ofNat index))
    creditRecipients token recipientMeta (index + 1) total recipientWallets amounts

def initValues (sourceWallet : Wallet) (recipientWallets : List Wallet) (amounts : List ByteString)
    (remainderWallet : Wallet) : Act Exception Molecule (List Atom) := do
  clearHash
  let sourceMeta ← Act.ofExcept (unitsMeta sourceWallet.tokenUnits)
  pushAtom (Atom.new (clock 0) sourceWallet.position sourceWallet.address "V" sourceWallet.token
    (ascii "-" ++ sourceWallet.balance) sourceWallet.batchId [] [] sourceMeta 0)
  let (index, total) ← creditRecipients clock (·.token) (fun w => unitsMeta w.tokenUnits) 1 0 recipientWallets amounts
  let remainderMeta ← Act.ofExcept (unitsMeta remainderWallet.tokenUnits)
  let balance ← Act.ofExcept (stoll sourceWallet.balance)
  let remainderAmount ← Act.ofExcept (signed 64 (balance - total))
  pushAtom (Atom.new (clock index) remainderWallet.position remainderWallet.address "V" remainderWallet.token
    (Decimal.ofInt remainderAmount) remainderWallet.batchId (ascii "walletBundle") remainderWallet.bundle remainderMeta
    (Int32.ofNat index))
  builtAtoms

/-- The trade rates as a meta of the buffer atom, none for an empty list. -/
def tradeRatesMeta (tradeRates : Metas) : Throws Metas :=
  if tradeRates = [] then .ok []
  else (dumpJson (Json.object (tradeRates.map fun kv => (kv.1, Json.str kv.2)))).map fun json =>
    [(ascii "tradeRates", json)]

def initDepositBuffer (sourceWallet bufferWallet remainderWallet : Wallet) (amount : ByteString) (tradeRates : Metas) :
    Act Exception Molecule (List Atom) := do
  clearHash
  pushAtom (Atom.new (clock 0) sourceWallet.position sourceWallet.address "V" sourceWallet.token
    (ascii "-" ++ sourceWallet.balance) sourceWallet.batchId [] [] [] 0)
  let bufferMeta ← Act.ofExcept (tradeRatesMeta tradeRates)
  pushAtom (Atom.new (clock 1) bufferWallet.position bufferWallet.address "B" bufferWallet.token amount
    bufferWallet.batchId (ascii "walletBundle") sourceWallet.bundle bufferMeta 1)
  let balance ← Act.ofExcept (stoll sourceWallet.balance)
  let deposited ← Act.ofExcept (stoll amount)
  let remainderAmount ← Act.ofExcept (signed 64 (balance - deposited))
  pushAtom (Atom.new (clock 2) remainderWallet.position remainderWallet.address "V" remainderWallet.token
    (Decimal.ofInt remainderAmount) remainderWallet.batchId (ascii "walletBundle") sourceWallet.bundle [] 2)
  builtAtoms

def initWithdrawBuffer (sourceWallet : Wallet) (recipientWallets : List Wallet) (amounts : List ByteString)
    (remainderWallet : Wallet) : Act Exception Molecule (List Atom) := do
  clearHash
  let sourceMeta ← Act.ofExcept (unitsMeta sourceWallet.tokenUnits)
  pushAtom (Atom.new (clock 0) sourceWallet.position sourceWallet.address "B" sourceWallet.token
    (ascii "-" ++ sourceWallet.balance) sourceWallet.batchId (ascii "walletBundle") sourceWallet.bundle sourceMeta 0)
  let (index, total) ←
    creditRecipients clock (fun _ => sourceWallet.token) (fun _ => .ok []) 1 0 recipientWallets amounts
  let balance ← Act.ofExcept (stoll sourceWallet.balance)
  let remainderAmount ← Act.ofExcept (signed 64 (balance - total))
  pushAtom (Atom.new (clock index) remainderWallet.position remainderWallet.address "B" remainderWallet.token
    (Decimal.ofInt remainderAmount) remainderWallet.batchId (ascii "walletBundle") remainderWallet.bundle []
    (Int32.ofNat index))
  builtAtoms

def initTokenCreation (sourceWallet recipientWallet : Wallet) (amount : ByteString) (tokenMeta : Metas) :
    Act Exception Molecule (List Atom) := do
  clearHash
  pushAtom (Atom.new (clock 0) sourceWallet.position sourceWallet.address "C" sourceWallet.token amount []
    (ascii "token") recipientWallet.token (tokenMeta ++ buildWalletMetaKeys recipientWallet) 0)
  addContinuIdAtom clock sourceWallet 1
  builtAtoms

/-- The metas of a replenish atom. -/
def replenishMeta (creditedWallet : Wallet) (tokenUnits : Metas) : Metas :=
  [(ascii "action", ascii "add"), (ascii "address", creditedWallet.address),
    (ascii "position", creditedWallet.position)] ++
  (if creditedWallet.mlkemPublicKey = [] then [] else [(ascii "pubkey", toBase64 creditedWallet.mlkemPublicKey)]) ++
  (if creditedWallet.batchId = [] then [] else [(ascii "batchId", creditedWallet.batchId)]) ++ tokenUnits

def initTokenReplenish (sourceWallet creditedWallet : Wallet) (amount : ByteString) (units : List TokenUnit) :
    Act Exception Molecule (List Atom) := do
  clearHash
  let tokenUnits ← Act.ofExcept (unitsMeta units)
  pushAtom (Atom.new (clock 0) sourceWallet.position sourceWallet.address "C" sourceWallet.token
    (if units = [] then amount else Decimal.ofNat units.length) creditedWallet.batchId (ascii "token")
    creditedWallet.token (replenishMeta creditedWallet tokenUnits) 0)
  addContinuIdAtom clock sourceWallet 1
  builtAtoms

/-- The fused units in caller order. -/
def resolveUnits (tokenUnits : List TokenUnit) : List ByteString → Throws (List TokenUnit)
  | [] => .ok []
  | id :: ids =>
    match tokenUnits.find? fun u => u.id = id with
    | none => .error (.knishio (ascii "Token unit '" ++ id ++ ascii "' not found in the source wallet"))
    | some unit => (resolveUnits tokenUnits ids).map (unit :: ·)

/-- The new unit, which lists the fused ones. -/
def fusedUnitJson (newTokenUnitId : ByteString) (fused : List TokenUnit) : Json :=
  .arr [.str newTokenUnitId, .str newTokenUnitId,
    .obj [(ascii "fusedTokenUnits", .arr (fused.map Wallet.unitTriple))]]

/-- `drawn` are the random batch ids of the burn and the fusion atom, used when the source has one. -/
def initTokenFusion (drawn : ByteString × ByteString) (sourceWallet recipientWallet remainderWallet : Wallet)
    (fusedTokenUnitIds : List ByteString) (newTokenUnitId : ByteString) : Act Exception Molecule (List Atom) := do
  if fusedTokenUnitIds.length < 2 then
    throw (.knishio (ascii "Token fusion requires at least two token units"))
  let fused ← Act.ofExcept (resolveUnits sourceWallet.tokenUnits fusedTokenUnitIds)
  if sourceWallet.tokenUnits.any fun u => u.id = newTokenUnitId then
    throw (.knishio (ascii "Token fusion unit id already exists in the source wallet"))
  let sent := sourceWallet.tokenUnits.filter (Wallet.idInList fusedTokenUnitIds)
  let kept := sourceWallet.tokenUnits.filter fun u => !Wallet.idInList fusedTokenUnitIds u
  let newUnitJson ← Act.ofExcept (dumpJson (.arr [fusedUnitJson newTokenUnitId fused]))
  let balance ← Act.ofExcept (stoll sourceWallet.balance)
  let freshBatchId (batchId : ByteString) : ByteString := if sourceWallet.batchId = [] then [] else batchId
  clearHash
  let sentMeta ← Act.ofExcept (unitsMeta sent)
  pushAtom (Atom.new (clock 0) sourceWallet.position sourceWallet.address "V" sourceWallet.token
    (ascii "-" ++ sourceWallet.balance) sourceWallet.batchId [] [] sentMeta 0)
  let burnedMeta ← Act.ofExcept (unitsMeta fused.dropLast)
  pushAtom (Atom.new (clock 1) [] [] "V" sourceWallet.token (Decimal.ofInt (fused.length - 1)) (freshBatchId drawn.1)
    (ascii "walletBundle") zeroBundle burnedMeta 1)
  pushAtom (Atom.new (clock 2) recipientWallet.position recipientWallet.address "F" sourceWallet.token (ascii "1")
    (freshBatchId drawn.2) (ascii "walletBundle") recipientWallet.bundle [(ascii "tokenUnits", newUnitJson)] 2)
  let remainderAmount ← Act.ofExcept (signed 64 (balance - fused.length))
  let keptMeta ← Act.ofExcept (unitsMeta kept)
  pushAtom (Atom.new (clock 3) remainderWallet.position remainderWallet.address "V" sourceWallet.token
    (Decimal.ofInt remainderAmount) sourceWallet.batchId (ascii "walletBundle") sourceWallet.bundle keptMeta 3)
  builtAtoms

def initMeta (wallet : Wallet) («meta» : Metas) (metaType metaId : ByteString) :
    Act Exception Molecule (List Atom) := do
  clearHash
  pushAtom (Atom.new (clock 0) wallet.position wallet.address "M" wallet.token [] [] metaType metaId «meta» 0)
  addContinuIdAtom clock wallet 1
  builtAtoms

/-- The metas of an authorization atom. -/
def authorizationMeta (sourceWallet : Wallet) (encrypt : Bool) : Metas :=
  [(ascii "encrypt", if encrypt then ascii "true" else ascii "false")] ++
  (if sourceWallet.mlkemPublicKey = [] then []
    else [(ascii "pubkey", toBase64 sourceWallet.mlkemPublicKey),
      (ascii "walletPubkey", toBase64 sourceWallet.mlkemPublicKey)]) ++
  [(ascii "characters", ascii "BASE64")]

def initAuthorization (sourceWallet : Wallet) (encrypt : Bool) : Act Exception Molecule (List Atom) := do
  clearHash
  pushAtom (Atom.new (clock 0) sourceWallet.position sourceWallet.address "U" sourceWallet.token [] [] [] []
    (authorizationMeta sourceWallet encrypt) 0)
  addContinuIdAtom clock sourceWallet 1
  builtAtoms

def initWalletCreation (sourceWallet wallet : Wallet) (atomMeta : Metas) : Act Exception Molecule (List Atom) := do
  clearHash
  pushAtom (Atom.new (clock 0) sourceWallet.position sourceWallet.address "C" sourceWallet.token [] []
    (ascii "wallet") wallet.address (atomMeta ++ buildWalletMetaKeys wallet) 0)
  addContinuIdAtom clock sourceWallet 1
  builtAtoms

def initShadowWalletClaim (sourceWallet wallet : Wallet) : Act Exception Molecule (List Atom) :=
  initWalletCreation clock sourceWallet wallet [(ascii "shadowWalletClaim", ascii "1")]

end Builders

/-- A call of one of the builders with its arguments. -/
inductive Builder where
  | initValue (sourceWallet recipientWallet remainderWallet : Wallet) (amount : ByteString)
  | initValues (sourceWallet : Wallet) (recipientWallets : List Wallet) (amounts : List ByteString) (remainderWallet : Wallet)
  | initDepositBuffer (sourceWallet bufferWallet remainderWallet : Wallet) (amount : ByteString) (tradeRates : Metas)
  | initWithdrawBuffer (sourceWallet : Wallet) (recipientWallets : List Wallet) (amounts : List ByteString)
      (remainderWallet : Wallet)
  | initTokenCreation (sourceWallet recipientWallet : Wallet) (amount : ByteString) (tokenMeta : Metas)
  | initTokenReplenish (sourceWallet creditedWallet : Wallet) (amount : ByteString) (units : List TokenUnit)
  | initTokenFusion (drawn : ByteString × ByteString) (sourceWallet recipientWallet remainderWallet : Wallet)
      (fusedTokenUnitIds : List ByteString) (newTokenUnitId : ByteString)
  | initMeta (wallet : Wallet) («meta» : Metas) (metaType metaId : ByteString)
  | initWalletCreation (sourceWallet wallet : Wallet) (atomMeta : Metas)
  | initShadowWalletClaim (sourceWallet wallet : Wallet)
  | initAuthorization (sourceWallet : Wallet) (encrypt : Bool)

namespace Builder

def run (clock : Nat → Int64) : Builder → Act Exception Molecule (List Atom)
  | initValue source recipient remainder amount => Molecule.initValue clock source recipient remainder amount
  | initValues source recipients amounts remainder => Molecule.initValues clock source recipients amounts remainder
  | initDepositBuffer source buffer remainder amount tradeRates =>
    Molecule.initDepositBuffer clock source buffer remainder amount tradeRates
  | initWithdrawBuffer source recipients amounts remainder =>
    Molecule.initWithdrawBuffer clock source recipients amounts remainder
  | initTokenCreation source recipient amount tokenMeta =>
    Molecule.initTokenCreation clock source recipient amount tokenMeta
  | initTokenReplenish source credited amount units => Molecule.initTokenReplenish clock source credited amount units
  | initTokenFusion drawn source recipient remainder ids newId =>
    Molecule.initTokenFusion clock drawn source recipient remainder ids newId
  | initMeta wallet metas metaType metaId => Molecule.initMeta clock wallet metas metaType metaId
  | initWalletCreation source wallet atomMeta => Molecule.initWalletCreation clock source wallet atomMeta
  | initShadowWalletClaim source wallet => Molecule.initShadowWalletClaim clock source wallet
  | initAuthorization source encrypt => Molecule.initAuthorization clock source encrypt

end Builder

end Molecule

end KnishIO
