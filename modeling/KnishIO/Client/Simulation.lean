import KnishIO.Client.Authorization
import KnishIO.Library.Lockstep

open ByteString

namespace KnishIO

variable {E E' : Type}

/-- The same client against another node. -/
def Setting.against (S : Setting E) (serve : Request → E' → Reply × E') : Setting E' where
  hash := S.hash
  kem := S.kem
  floatText := S.floatText
  draw := S.draw
  clock := S.clock
  serve := serve

/-- Two clients side by side: they differ in their transports and in the states of their nodes only. -/
structure Beside (K : Transport → Transport → Prop) (R : E → E' → Prop) (w : World E) (w' : World E') : Prop where
  client : w'.client = { w.client with transport := w'.client.transport }
  transport : K w.client.transport w'.client.transport
  env : R w.env w'.env
  drawn : w'.drawn = w.drawn
  log : w'.log = w.log

/-- A second node that cannot be told from the first: related transports let the same requests pass, and each
request gets the same reply. -/
structure Setting.Simulates (S : Setting E) (serve : Request → E' → Reply × E') (K : Transport → Transport → Prop)
    (R : E → E' → Prop) :
    Prop where
  permit {T T' : Transport} (h : K T T') (request : Request) : T'.permit request = T.permit request
  reply {e : E} {e' : E'} (h : R e e') (request : Request) : (serve request e').1 = (S.serve request e).1
  env {e : E} {e' : E'} (h : R e e') (request : Request) : R (S.serve request e).2 (serve request e').2

section Worlds

variable {K : Transport → Transport → Prop} {R : E → E' → Prop} {w : World E} {w' : World E'}

theorem Beside.config (h : Beside K R w w') : w'.client.config = w.client.config := by
  rw [h.client]

theorem Beside.secret (h : Beside K R w w') : w'.client.secret = w.client.secret := by
  rw [h.client]

theorem Beside.bundle (h : Beside K R w w') : w'.client.bundle = w.client.bundle := by
  rw [h.client]

theorem Beside.isAuthenticated (h : Beside K R w w') : w'.client.isAuthenticated = w.client.isAuthenticated := by
  rw [h.client]
  rfl

theorem Beside.bindOwnWalletOtsVersion (h : Beside K R w w') (H : Shake256) (token position address : ByteString) :
    w'.client.bindOwnWalletOtsVersion H token position address = w.client.bindOwnWalletOtsVersion H token position address := by
  rw [h.client]
  rfl

end Worlds

section Steps

variable {S : Setting E} {serve : Request → E' → Reply × E'} {K : Transport → Transport → Prop} {R : E → E' → Prop}

theorem lockstep_exchange (h : S.Simulates serve K R) (request : Request) (record : Reply → Event) :
    Act.Lockstep (Beside K R) Eq (exchange S request record) (exchange (S.against serve) request record) := by
  unfold exchange
  refine .bind .get fun w w' hw => ?_
  rw [h.permit hw.transport]
  refine .bind_eq (.ofExcept .refl) fun _ => ?_
  have hreply : ((S.against serve).serve request w'.env).1 = (S.serve request w.env).1 := h.reply hw.env request
  refine .bind (.set ⟨hw.client, hw.transport, h.env hw.env request, hw.drawn, ?_⟩) fun _ _ _ => .pure hreply.symm
  dsimp only
  rw [hreply, hw.log]

theorem lockstep_randomHex : Act.Lockstep (Beside K R) Eq (randomHex S) (randomHex (S.against serve)) := by
  unfold randomHex
  refine .bind .get fun w w' hw => ?_
  rw [hw.drawn]
  exact .bind (.set ⟨hw.client, hw.transport, hw.env, rfl, hw.log⟩) fun _ _ _ => .pure rfl

theorem lockstep_newWallet (secret : Secret) (token position : ByteString) (mlkemParameterSet otsVersion : Int) :
    Act.Lockstep (Beside K R) Eq (newWallet S secret token position mlkemParameterSet otsVersion)
      (newWallet (S.against serve) secret token position mlkemParameterSet otsVersion) := by
  unfold newWallet
  refine .bind_eq ?_ fun position => .ofExcept .refl
  split
  · exact lockstep_randomHex
  · exact .pure rfl

theorem lockstep_secretValue : Act.Lockstep (Beside K R) Eq secretValue secretValue := by
  unfold secretValue
  refine .bind .get fun w w' hw => ?_
  rw [hw.secret]
  cases w.client.secret with
  | none => exact .throw _
  | some secret => exact .pure rfl

theorem lockstep_getBundle : Act.Lockstep (Beside K R) Eq getBundle getBundle := by
  unfold getBundle
  refine .bind .get fun w w' hw => ?_
  rw [hw.bundle]
  cases w.client.bundle with
  | none => exact .throw _
  | some bundle => exact .pure rfl

theorem lockstep_ensureAuthenticated : Act.Lockstep (Beside K R) Eq ensureAuthenticated ensureAuthenticated := by
  unfold ensureAuthenticated
  refine .bind .get fun w w' hw => ?_
  rw [hw.isAuthenticated]
  exact .require

theorem lockstep_assemble (cellSlug : ByteString) (source remainder : Wallet) (b : Molecule.Builder) :
    Act.Lockstep (Beside K R) Eq (assemble S cellSlug source remainder b)
      (assemble (S.against serve) cellSlug source remainder b) := by
  unfold assemble
  refine .bind .get fun w w' hw => ?_
  rw [hw.drawn]
  exact .bind_eq (.ofExcept .refl) fun _ => .pure rfl

theorem lockstep_submitMolecule (h : S.Simulates serve K R) (molecule : Molecule) (checkBeforeSend : Bool) :
    Act.Lockstep (Beside K R) Eq (submitMolecule S molecule checkBeforeSend)
      (submitMolecule (S.against serve) molecule checkBeforeSend) := by
  unfold submitMolecule
  refine .bind .get fun w w' hw => ?_
  rw [hw.secret]
  cases w.client.secret with
  | none => exact .throw _
  | some secret =>
    refine .bind_eq (.ofExcept .refl) fun signed => ?_
    refine .bind_eq (.ofExcept .refl) fun _ => ?_
    refine .bind_eq (.ofExcept .refl) fun _ => ?_
    exact .bind_eq (lockstep_exchange h _ _) fun reply => .ofExcept .refl

theorem lockstep_continuIdSourceWallet (h : S.Simulates serve K R) (bundle : ByteString) (mlKemParameterSet : Int) :
    Act.Lockstep (Beside K R) Eq (continuIdSourceWallet S bundle mlKemParameterSet)
      (continuIdSourceWallet (S.against serve) bundle mlKemParameterSet) := by
  unfold continuIdSourceWallet
  refine .bind_eq (.tryCatch (.bind_eq (lockstep_exchange h _ _) fun reply => .pure rfl) fun e => .pure rfl) fun pointer => ?_
  refine .bind_eq lockstep_secretValue fun secret => ?_
  refine .bind .get fun w w' hw => ?_
  dsimp only
  rw [hw.config]
  split
  · exact lockstep_newWallet _ _ _ _ _
  · rw [hw.bindOwnWalletOtsVersion]
    exact .bind_eq (.ofExcept .refl) fun version => lockstep_newWallet _ _ _ _ _

theorem lockstep_resolveTokenWallet (h : S.Simulates serve K R) (bundle token : ByteString) (buffer : Bool) :
    Act.Lockstep (Beside K R) Eq (resolveTokenWallet S bundle token buffer)
      (resolveTokenWallet (S.against serve) bundle token buffer) := by
  unfold resolveTokenWallet
  refine .tryCatch (.bind_eq (lockstep_exchange h _ _) fun reply => .pure rfl) fun e => ?_
  split
  · exact .throw e
  · exact .pure rfl

theorem lockstep_ledgerWallet (secret : Secret) (token : ByteString) (mlKemParameterSet : Int) (info : TokenWalletInfo) :
    Act.Lockstep (Beside K R) Eq (ledgerWallet S secret token mlKemParameterSet info)
      (ledgerWallet (S.against serve) secret token mlKemParameterSet info) := by
  unfold ledgerWallet
  refine .bind .get fun w w' hw => ?_
  rw [hw.bindOwnWalletOtsVersion]
  exact .bind_eq (.ofExcept .refl) fun version => lockstep_newWallet _ _ _ _ _

end Steps

section Operations

variable {S : Setting E} {serve : Request → E' → Reply × E'} {K : Transport → Transport → Prop} {R : E → E' → Prop}

/-- The wallet made last is dropped, but its constructor may throw. -/
theorem lockstep_setSecret (secret : ByteString) :
    Act.Lockstep (Beside K R) Eq (setSecret S secret) (setSecret (S.against serve) secret) := by
  unfold setSecret
  refine .bind_eq (.ofExcept .refl) fun secret => ?_
  refine .bind_eq (.modify fun w w' hw => ⟨?_, hw.transport, hw.env, hw.drawn, ?_⟩) fun _ => ?_
  · rw [hw.client]
  · rw [hw.log]
  refine .bind .get fun w w' hw => ?_
  dsimp only
  rw [hw.config]
  refine .bind_eq (lockstep_newWallet _ _ _ _ _) fun _ => ?_
  refine .modify fun w w' hw => ⟨?_, hw.transport, hw.env, hw.drawn, hw.log⟩
  rw [hw.client]
  rfl

theorem lockstep_createToken (h : S.Simulates serve K R) (token : ByteString) (amount : BinaryFloat.Value) (tokenMeta : Metas)
    (units : List ByteString) :
    Act.Lockstep (Beside K R) Eq (createToken S token amount tokenMeta units)
      (createToken (S.against serve) token amount tokenMeta units) := by
  unfold createToken
  refine .bind_eq lockstep_ensureAuthenticated fun _ => ?_
  refine .bind_eq lockstep_secretValue fun secret => ?_
  refine .bind_eq lockstep_getBundle fun bundle => ?_
  refine .bind_eq (lockstep_continuIdSourceWallet h _ _) fun source => ?_
  refine .bind .get fun w w' hw => ?_
  dsimp only
  rw [hw.config]
  refine .bind_eq (lockstep_newWallet _ _ _ _ _) fun recipient => ?_
  refine .bind_eq (lockstep_newWallet _ _ _ _ _) fun remainder => ?_
  refine .bind_eq (.ofExcept .refl) fun supply => ?_
  refine .bind_eq (.ofExcept .refl) fun unitMeta => ?_
  refine .bind_eq ?_ fun batchId => ?_
  · split
    · exact lockstep_randomHex
    · exact .pure rfl
  refine .bind_eq (lockstep_assemble _ _ _ _) fun molecule => ?_
  exact .bind_eq (lockstep_submitMolecule h _ _) fun proposeResp => .pure rfl

theorem lockstep_createWallet (h : S.Simulates serve K R) (token : ByteString) :
    Act.Lockstep (Beside K R) Eq (createWallet S token) (createWallet (S.against serve) token) := by
  unfold createWallet
  refine .bind_eq lockstep_ensureAuthenticated fun _ => ?_
  refine .bind_eq lockstep_secretValue fun secret => ?_
  refine .bind_eq lockstep_getBundle fun bundle => ?_
  refine .bind .get fun w w' hw => ?_
  dsimp only
  rw [hw.config]
  refine .bind_eq (lockstep_continuIdSourceWallet h _ _) fun source => ?_
  refine .bind_eq (lockstep_newWallet _ _ _ _ _) fun wallet => ?_
  refine .bind_eq (lockstep_newWallet _ _ _ _ _) fun remainder => ?_
  exact .bind_eq (lockstep_assemble _ _ _ _) fun molecule => lockstep_submitMolecule h _ _

theorem lockstep_createMeta (h : S.Simulates serve K R) (metaType metaId : ByteString) (metas : Metas) :
    Act.Lockstep (Beside K R) Eq (createMeta S metaType metaId metas) (createMeta (S.against serve) metaType metaId metas) := by
  unfold createMeta
  refine .bind_eq lockstep_ensureAuthenticated fun _ => ?_
  refine .bind_eq lockstep_secretValue fun secret => ?_
  refine .bind_eq lockstep_getBundle fun bundle => ?_
  refine .bind .get fun w w' hw => ?_
  dsimp only
  rw [hw.config]
  refine .bind_eq (lockstep_continuIdSourceWallet h _ _) fun source => ?_
  refine .bind_eq (lockstep_newWallet _ _ _ _ _) fun remainder => ?_
  exact .bind_eq (lockstep_assemble _ _ _ _) fun molecule => lockstep_submitMolecule h _ _

theorem lockstep_claimShadowWallet (h : S.Simulates serve K R) (token batchId : ByteString) :
    Act.Lockstep (Beside K R) Eq (claimShadowWallet S token batchId) (claimShadowWallet (S.against serve) token batchId) := by
  unfold claimShadowWallet
  refine .bind_eq lockstep_ensureAuthenticated fun _ => ?_
  refine .bind_eq lockstep_secretValue fun secret => ?_
  refine .bind_eq lockstep_getBundle fun bundle => ?_
  refine .bind .get fun w w' hw => ?_
  dsimp only
  rw [hw.config]
  refine .bind_eq (lockstep_continuIdSourceWallet h _ _) fun source => ?_
  refine .bind_eq (lockstep_newWallet _ _ _ _ _) fun claimWallet => ?_
  refine .bind_eq (lockstep_newWallet _ _ _ _ _) fun remainder => ?_
  exact .bind_eq (lockstep_assemble _ _ _ _) fun molecule => lockstep_submitMolecule h _ _

theorem lockstep_transferToken (h : S.Simulates serve K R) (bundleHash token : ByteString) (amount : BinaryFloat.Value)
    (batchId : ByteString) (units : List ByteString) :
    Act.Lockstep (Beside K R) Eq (transferToken S bundleHash token amount batchId units)
      (transferToken (S.against serve) bundleHash token amount batchId units) := by
  unfold transferToken
  refine .bind_eq lockstep_ensureAuthenticated fun _ => ?_
  refine .bind_eq lockstep_secretValue fun secret => ?_
  refine .bind_eq lockstep_getBundle fun senderBundle => ?_
  refine .bind_eq (lockstep_resolveTokenWallet h _ _ _) fun src => ?_
  refine .bind_eq .require fun _ => ?_
  refine .bind_eq (.ofExcept .refl) fun amountLL => ?_
  refine .bind_eq .require fun _ => ?_
  refine .bind .get fun w w' hw => ?_
  dsimp only
  rw [hw.config]
  refine .bind_eq (lockstep_ledgerWallet _ _ _ _) fun ledger => ?_
  refine .bind_eq (lockstep_newWallet _ _ _ _ _) fun drawn => ?_
  refine .bind_eq (lockstep_newWallet _ _ _ _ _) fun fresh => ?_
  exact .bind_eq (lockstep_assemble _ _ _ _) fun molecule => lockstep_submitMolecule h _ _

theorem lockstep_recipientShadows (secret : Secret) (token : ByteString) (recipients : List TransferRecipient) :
    Act.Lockstep (Beside K R) Eq (recipientShadows S secret token recipients)
      (recipientShadows (S.against serve) secret token recipients) := by
  induction recipients with
  | nil => exact .pure rfl
  | cons r recipients ih =>
    unfold recipientShadows
    exact .bind_eq (lockstep_newWallet _ _ _ _ _) fun drawn => .bind_eq ih fun rest => .pure rfl

theorem lockstep_transferTokens (h : S.Simulates serve K R) (token : ByteString) (recipients : List TransferRecipient) :
    Act.Lockstep (Beside K R) Eq (transferTokens S token recipients) (transferTokens (S.against serve) token recipients) := by
  unfold transferTokens
  refine .bind_eq lockstep_ensureAuthenticated fun _ => ?_
  refine .bind_eq lockstep_secretValue fun secret => ?_
  refine .bind_eq lockstep_getBundle fun senderBundle => ?_
  refine .bind_eq (.ofExcept .refl) fun amounts => ?_
  refine .bind_eq (lockstep_resolveTokenWallet h _ _ _) fun src => ?_
  refine .bind_eq .require fun _ => ?_
  refine .bind_eq .require fun _ => ?_
  refine .bind .get fun w w' hw => ?_
  dsimp only
  rw [hw.config]
  refine .bind_eq (lockstep_ledgerWallet _ _ _ _) fun ledger => ?_
  refine .bind_eq (lockstep_recipientShadows _ _ _) fun shadows => ?_
  refine .bind_eq (lockstep_newWallet _ _ _ _ _) fun fresh => ?_
  exact .bind_eq (lockstep_assemble _ _ _ _) fun molecule => lockstep_submitMolecule h _ _

theorem lockstep_burnToken (h : S.Simulates serve K R) (token : ByteString) (amount : BinaryFloat.Value)
    (units : List ByteString) :
    Act.Lockstep (Beside K R) Eq (burnToken S token amount units) (burnToken (S.against serve) token amount units) := by
  unfold burnToken
  refine .bind_eq lockstep_ensureAuthenticated fun _ => ?_
  refine .bind_eq lockstep_secretValue fun secret => ?_
  refine .bind_eq lockstep_getBundle fun senderBundle => ?_
  refine .bind_eq (lockstep_resolveTokenWallet h _ _ _) fun src => ?_
  refine .bind_eq .require fun _ => ?_
  refine .bind_eq (.ofExcept .refl) fun amountLL => ?_
  refine .bind_eq .require fun _ => ?_
  refine .bind .get fun w w' hw => ?_
  dsimp only
  rw [hw.config]
  refine .bind_eq (lockstep_ledgerWallet _ _ _ _) fun ledger => ?_
  refine .bind_eq (lockstep_newWallet _ _ _ _ _) fun drawn => ?_
  refine .bind_eq (lockstep_newWallet _ _ _ _ _) fun fresh => ?_
  exact .bind_eq (lockstep_assemble _ _ _ _) fun molecule => lockstep_submitMolecule h _ _

theorem lockstep_depositBufferToken (h : S.Simulates serve K R) (token : ByteString) (amount : BinaryFloat.Value)
    (tradeRates : Metas) :
    Act.Lockstep (Beside K R) Eq (depositBufferToken S token amount tradeRates)
      (depositBufferToken (S.against serve) token amount tradeRates) := by
  unfold depositBufferToken
  refine .bind_eq lockstep_ensureAuthenticated fun _ => ?_
  refine .bind_eq lockstep_secretValue fun secret => ?_
  refine .bind_eq lockstep_getBundle fun senderBundle => ?_
  refine .bind_eq (lockstep_resolveTokenWallet h _ _ _) fun src => ?_
  refine .bind_eq .require fun _ => ?_
  refine .bind_eq (.ofExcept .refl) fun amountLL => ?_
  refine .bind_eq .require fun _ => ?_
  refine .bind .get fun w w' hw => ?_
  dsimp only
  rw [hw.config]
  refine .bind_eq (lockstep_ledgerWallet _ _ _ _) fun ledger => ?_
  refine .bind_eq (lockstep_newWallet _ _ _ _ _) fun buffer => ?_
  refine .bind_eq (lockstep_newWallet _ _ _ _ _) fun remainder => ?_
  exact .bind_eq (lockstep_assemble _ _ _ _) fun molecule => lockstep_submitMolecule h _ _

theorem lockstep_bufferSource (h : S.Simulates serve K R) (secret : Secret) (senderBundle token : ByteString)
    (mlKemParameterSet : Int) (given : Option Wallet) :
    Act.Lockstep (Beside K R) Eq (bufferSource S secret senderBundle token mlKemParameterSet given)
      (bufferSource (S.against serve) secret senderBundle token mlKemParameterSet given) := by
  cases given with
  | some given => exact .pure rfl
  | none =>
    refine .bind_eq (lockstep_resolveTokenWallet h _ _ _) fun src => ?_
    refine .bind_eq .require fun _ => ?_
    exact .bind_eq (lockstep_ledgerWallet _ _ _ _) fun ledger => .pure rfl

theorem lockstep_withdrawFrom (h : S.Simulates serve K R) (secret : Secret) (senderBundle token : ByteString)
    (amount : BinaryFloat.Value) (config : Config) (source : Wallet) :
    Act.Lockstep (Beside K R) Eq (withdrawFrom S secret senderBundle token amount config source)
      (withdrawFrom (S.against serve) secret senderBundle token amount config source) := by
  unfold withdrawFrom
  refine .bind_eq (.ofExcept .refl) fun amountLL => ?_
  refine .bind_eq .require fun _ => ?_
  refine .bind_eq (lockstep_newWallet _ _ _ _ _) fun drawn => ?_
  refine .bind_eq ?_ fun batchId => ?_
  · split
    · exact .pure rfl
    · exact lockstep_randomHex
  refine .bind_eq (lockstep_newWallet _ _ _ _ _) fun fresh => ?_
  exact .bind_eq (lockstep_assemble _ _ _ _) fun molecule => lockstep_submitMolecule h _ _

theorem lockstep_withdrawBufferToken (h : S.Simulates serve K R) (token : ByteString) (amount : BinaryFloat.Value)
    (given : Option Wallet) :
    Act.Lockstep (Beside K R) Eq (withdrawBufferToken S token amount given)
      (withdrawBufferToken (S.against serve) token amount given) := by
  unfold withdrawBufferToken
  refine .bind_eq lockstep_ensureAuthenticated fun _ => ?_
  refine .bind_eq lockstep_secretValue fun secret => ?_
  refine .bind_eq lockstep_getBundle fun senderBundle => ?_
  refine .bind .get fun w w' hw => ?_
  dsimp only
  rw [hw.config]
  exact .bind_eq (lockstep_bufferSource h _ _ _ _ _) fun source => lockstep_withdrawFrom h _ _ _ _ _ _

theorem lockstep_creditedWallet (secret : Secret) (token : ByteString) (config : Config) (existing : TokenWalletInfo) :
    Act.Lockstep (Beside K R) Eq (creditedWallet S secret token config existing)
      (creditedWallet (S.against serve) secret token config existing) := by
  unfold creditedWallet
  split
  · exact .bind_eq (lockstep_ledgerWallet _ _ _ _) fun ledger => .pure rfl
  · exact lockstep_newWallet _ _ _ _ _

theorem lockstep_replenishToken (h : S.Simulates serve K R) (token : ByteString) (amount : BinaryFloat.Value)
    (units : List ByteString) :
    Act.Lockstep (Beside K R) Eq (replenishToken S token amount units) (replenishToken (S.against serve) token amount units) := by
  unfold replenishToken
  refine .bind_eq lockstep_ensureAuthenticated fun _ => ?_
  refine .bind_eq lockstep_secretValue fun secret => ?_
  refine .bind .get fun w w' hw => ?_
  dsimp only
  rw [hw.config]
  refine .bind_eq (.ofExcept .refl) fun amountLL => ?_
  refine .bind_eq .require fun _ => ?_
  refine .bind_eq .require fun _ => ?_
  refine .bind_eq lockstep_getBundle fun bundle => ?_
  refine .bind_eq (lockstep_continuIdSourceWallet h _ _) fun source => ?_
  refine .bind_eq (lockstep_newWallet _ _ _ _ _) fun remainder => ?_
  refine .bind_eq (lockstep_resolveTokenWallet h _ _ _) fun existing => ?_
  refine .bind_eq (lockstep_creditedWallet _ _ _ _) fun credited => ?_
  exact .bind_eq (lockstep_assemble _ _ _ _) fun molecule => lockstep_submitMolecule h _ _

theorem lockstep_fusionBatchIds (source : Wallet) :
    Act.Lockstep (Beside K R) Eq (fusionBatchIds S source) (fusionBatchIds (S.against serve) source) := by
  unfold fusionBatchIds
  split
  · exact .pure rfl
  · exact .bind_eq lockstep_randomHex fun burned => .bind_eq lockstep_randomHex fun fused => .pure rfl

theorem lockstep_fuseToken (h : S.Simulates serve K R) (bundleHash tokenSlug newTokenUnitId : ByteString)
    (fusedTokenUnitIds : List ByteString) :
    Act.Lockstep (Beside K R) Eq (fuseToken S bundleHash tokenSlug newTokenUnitId fusedTokenUnitIds)
      (fuseToken (S.against serve) bundleHash tokenSlug newTokenUnitId fusedTokenUnitIds) := by
  unfold fuseToken
  refine .bind_eq lockstep_ensureAuthenticated fun _ => ?_
  refine .bind_eq lockstep_secretValue fun secret => ?_
  refine .bind_eq lockstep_getBundle fun senderBundle => ?_
  refine .bind .get fun w w' hw => ?_
  dsimp only
  rw [hw.config]
  refine .bind_eq (lockstep_resolveTokenWallet h _ _ _) fun src => ?_
  refine .bind_eq .require fun _ => ?_
  refine .bind_eq (lockstep_ledgerWallet _ _ _ _) fun ledger => ?_
  refine .bind_eq (lockstep_newWallet _ _ _ _ _) fun own => ?_
  refine .bind_eq (lockstep_newWallet _ _ _ _ _) fun remainder => ?_
  refine .bind_eq (lockstep_fusionBatchIds _) fun drawn => ?_
  exact .bind_eq (lockstep_assemble _ _ _ _) fun molecule => lockstep_submitMolecule h _ _

end Operations

section Runs

/-- A call with its outcome. -/
def performOp (S : Setting E) : Op → Run E (Option Response)
  | .setSecret secret => do
    setSecret S secret
    return none
  | .switchEncryption encrypt => do
    switchEncryption encrypt
    return none
  | .requestAuthToken secret cellSlug encrypt => return some (← requestAuthToken S secret cellSlug encrypt)
  | .createToken token amount tokenMeta units => return some (← createToken S token amount tokenMeta units)
  | .createWallet token => return some (← createWallet S token)
  | .createMeta metaType metaId metas => return some (← createMeta S metaType metaId metas)
  | .claimShadowWallet token batchId => return some (← claimShadowWallet S token batchId)
  | .transferToken bundleHash token amount batchId units => return some (← transferToken S bundleHash token amount batchId units)
  | .transferTokens token recipients => return some (← transferTokens S token recipients)
  | .burnToken token amount units => return some (← burnToken S token amount units)
  | .depositBufferToken token amount tradeRates => return some (← depositBufferToken S token amount tradeRates)
  | .withdrawBufferToken token amount sourceWallet => return some (← withdrawBufferToken S token amount sourceWallet)
  | .replenishToken token amount units => return some (← replenishToken S token amount units)
  | .fuseToken bundleHash tokenSlug newTokenUnitId fusedTokenUnitIds =>
    return some (← fuseToken S bundleHash tokenSlug newTokenUnitId fusedTokenUnitIds)

/-- The calls that leave the session of the transport alone. -/
def Op.keepsSession : Op → Bool
  | .switchEncryption _ => false
  | .requestAuthToken _ _ _ => false
  | _ => true

/-- What the calls of a run return or throw. -/
def outcomes (S : Setting E) : World E → List Op → List (Throws (Option Response))
  | _, [] => []
  | w, op :: ops => ((performOp S op).exec w).1 :: outcomes S (applyOp S op w) ops

theorem applyOp_eq_performOp (S : Setting E) (op : Op) (w : World E) : applyOp S op w = ((performOp S op).exec w).2 := by
  have hstate {α β : Type} (x : Run E α) (f : α → β) : ((x >>= fun a => pure (f a)).exec w).2 = (x.exec w).2 := by
    rw [Act.exec_bind]
    rcases x.exec w with ⟨_ | _, _⟩ <;> rfl
  cases op <;> exact (hstate _ _).symm

variable {S : Setting E} {serve : Request → E' → Reply × E'} {K : Transport → Transport → Prop} {R : E → E' → Prop}

theorem lockstep_performOp (h : S.Simulates serve K R) {op : Op} (hop : op.keepsSession = true) :
    Act.Lockstep (Beside K R) Eq (performOp S op) (performOp (S.against serve) op) := by
  cases op with
  | setSecret secret => exact .bind_eq (lockstep_setSecret secret) fun _ => .pure rfl
  | switchEncryption encrypt => cases hop
  | requestAuthToken secret cellSlug encrypt => cases hop
  | createToken token amount tokenMeta units => exact .bind_eq (lockstep_createToken h _ _ _ _) fun _ => .pure rfl
  | createWallet token => exact .bind_eq (lockstep_createWallet h _) fun _ => .pure rfl
  | createMeta metaType metaId metas => exact .bind_eq (lockstep_createMeta h _ _ _) fun _ => .pure rfl
  | claimShadowWallet token batchId => exact .bind_eq (lockstep_claimShadowWallet h _ _) fun _ => .pure rfl
  | transferToken bundleHash token amount batchId units => exact .bind_eq (lockstep_transferToken h _ _ _ _ _) fun _ => .pure rfl
  | transferTokens token recipients => exact .bind_eq (lockstep_transferTokens h _ _) fun _ => .pure rfl
  | burnToken token amount units => exact .bind_eq (lockstep_burnToken h _ _ _) fun _ => .pure rfl
  | depositBufferToken token amount tradeRates => exact .bind_eq (lockstep_depositBufferToken h _ _ _) fun _ => .pure rfl
  | withdrawBufferToken token amount sourceWallet => exact .bind_eq (lockstep_withdrawBufferToken h _ _ _) fun _ => .pure rfl
  | replenishToken token amount units => exact .bind_eq (lockstep_replenishToken h _ _ _) fun _ => .pure rfl
  | fuseToken bundleHash tokenSlug newTokenUnitId fusedTokenUnitIds =>
    exact .bind_eq (lockstep_fuseToken h _ _ _ _) fun _ => .pure rfl

/-- A client cannot tell the two nodes apart in any run. -/
theorem Setting.Simulates.runs (h : S.Simulates serve K R) {ops : List Op} (hops : ∀ op ∈ ops, op.keepsSession = true)
    {w : World E}
    {w' : World E'} (hw : Beside K R w w') :
    outcomes S w ops = outcomes (S.against serve) w' ops ∧ Beside K R (runOps S w ops) (runOps (S.against serve) w' ops) := by
  induction ops generalizing w w' with
  | nil => exact ⟨rfl, hw⟩
  | cons op ops ih =>
    obtain ⟨hop, hrest⟩ := List.forall_mem_cons.mp hops
    obtain ⟨houtcome, hworlds⟩ := lockstep_performOp h hop w w' hw
    rw [← applyOp_eq_performOp, ← applyOp_eq_performOp] at hworlds
    obtain ⟨houtcomes, hfinal⟩ := ih hrest hworlds
    refine ⟨?_, hfinal⟩
    rw [outcomes, outcomes, houtcome.eq, houtcomes]

end Runs

end KnishIO
