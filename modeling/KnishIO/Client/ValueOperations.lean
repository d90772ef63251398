import KnishIO.Client.Defined
import KnishIO.Client.Login

open ByteString

namespace KnishIO

/-- The operations that move value out of a token wallet. -/
inductive ValueOperation where
  | transferToken (bundleHash token : ByteString) (amount : BinaryFloat.Value) (batchId : ByteString)
      (units : List ByteString)
  | transferTokens (token : ByteString) (recipients : List TransferRecipient)
  | burnToken (token : ByteString) (amount : BinaryFloat.Value) (units : List ByteString)
  | depositBufferToken (token : ByteString) (amount : BinaryFloat.Value) (tradeRates : Metas)
  | withdrawBufferToken (token : ByteString) (amount : BinaryFloat.Value) (sourceWallet : Option Wallet)

namespace ValueOperation

def run {E : Type} (S : Setting E) : ValueOperation → Run E Response
  | transferToken bundleHash token amount batchId units => KnishIO.transferToken S bundleHash token amount batchId units
  | transferTokens token recipients => KnishIO.transferTokens S token recipients
  | burnToken token amount units => KnishIO.burnToken S token amount units
  | depositBufferToken token amount tradeRates => KnishIO.depositBufferToken S token amount tradeRates
  | withdrawBufferToken token amount sourceWallet => KnishIO.withdrawBufferToken S token amount sourceWallet

def token : ValueOperation → ByteString
  | transferToken _ token _ _ _ => token
  | transferTokens token _ => token
  | burnToken token _ _ => token
  | depositBufferToken token _ _ => token
  | withdrawBufferToken token _ _ => token

/-- The withdrawal asks for the buffer row. -/
def buffer : ValueOperation → Bool
  | withdrawBufferToken _ _ _ => true
  | _ => false

/-- The amounts as integers; a recipient with units counts them. -/
def amounts : ValueOperation → Throws (List Int)
  | transferToken _ _ amount _ _ => (toLongLong amount).map ([·])
  | transferTokens _ recipients => recipients.mapM (·.amountLL)
  | burnToken _ amount _ => (toLongLong amount).map ([·])
  | depositBufferToken _ amount _ => (toLongLong amount).map ([·])
  | withdrawBufferToken _ amount _ => (toLongLong amount).map ([·])

/-- The row that the node reports to the operation. -/
def row {E : Type} (S : Setting E) (w : World E) (op : ValueOperation) : TokenWalletInfo :=
  (S.serve (.balance (w.client.bundle.getD []) op.token op.buffer) w.env).1.tokenWallet S.floatText

/-- The balance of the source: that of the row, or that of the caller's buffer wallet. -/
def balance {E : Type} (S : Setting E) (w : World E) : ValueOperation → ByteString
  | withdrawBufferToken _ _ (some given) => given.balance
  | op => (op.row S w).balance

/-- The builder call of an operation on a row, for some wallets that it draws. -/
inductive Builds (info : TokenWalletInfo) : ValueOperation → List Int → Molecule.Builder → Prop where
  | transferToken {bundleHash token batchId : ByteString} {amount : BinaryFloat.Value} {units : List ByteString}
      {amountLL : Int} (ledger recipient fresh : Wallet) :
      toLongLong amount = .ok amountLL → recipient.tokenUnits = [] → fresh.tokenUnits = [] →
      Builds info (.transferToken bundleHash token amount batchId units) [amountLL]
        (.initValue (Wallet.splitUnits (info.fund ledger) units fresh (some recipient)).1
          ((Wallet.splitUnits (info.fund ledger) units fresh (some recipient)).2.2.getD recipient)
          (Wallet.splitUnits (info.fund ledger) units fresh (some recipient)).2.1 (Decimal.ofInt amountLL))
  | transferTokens {token : ByteString} {recipients : List TransferRecipient} {ks : List Int} (ledger : Wallet)
      (shadows : List Wallet) (fresh : Wallet) :
      recipients.mapM (·.amountLL) = .ok ks → ks.sum < 2 ^ 63 → shadows.length = recipients.length →
      (∀ s ∈ shadows, s.tokenUnits = []) → fresh.tokenUnits = [] →
      Builds info (.transferTokens token recipients) ks
        (.initValues (Wallet.splitUnitsMulti (info.fund ledger) (recipients.map (·.units)) shadows fresh).1
          (Wallet.splitUnitsMulti (info.fund ledger) (recipients.map (·.units)) shadows fresh).2.1
          (ks.map Decimal.ofInt)
          (Wallet.splitUnitsMulti (info.fund ledger) (recipients.map (·.units)) shadows fresh).2.2)
  | burnToken {token : ByteString} {amount : BinaryFloat.Value} {units : List ByteString} {amountLL : Int}
      (ledger burnWallet fresh : Wallet) :
      toLongLong amount = .ok amountLL → burnWallet.tokenUnits = [] → fresh.tokenUnits = [] →
      Builds info (.burnToken token amount units) [amountLL]
        (.initValue (Wallet.splitUnits (info.fund ledger) units fresh none).1 burnWallet
          (Wallet.splitUnits (info.fund ledger) units fresh none).2.1 (Decimal.ofInt amountLL))
  | depositBufferToken {token : ByteString} {amount : BinaryFloat.Value} {tradeRates : Metas} {amountLL : Int}
      (ledger buffer fresh : Wallet) :
      toLongLong amount = .ok amountLL →
      Builds info (.depositBufferToken token amount tradeRates) [amountLL]
        (.initDepositBuffer { ledger with balance := info.balance } buffer fresh (Decimal.ofInt amountLL) tradeRates)
  | withdrawRow {token : ByteString} {amount : BinaryFloat.Value} {amountLL : Int} (ledger recipient fresh : Wallet) :
      toLongLong amount = .ok amountLL →
      Builds info (.withdrawBufferToken token amount none) [amountLL]
        (.initWithdrawBuffer { info.fund ledger with batchId := info.batchId } [recipient] [Decimal.ofInt amountLL] fresh)
  | withdrawGiven {token : ByteString} {amount : BinaryFloat.Value} {amountLL : Int} (given recipient fresh : Wallet) :
      toLongLong amount = .ok amountLL →
      Builds info (.withdrawBufferToken token amount (some given)) [amountLL]
        (.initWithdrawBuffer given [recipient] [Decimal.ofInt amountLL] fresh)

section Amounts

theorem recipientAmounts_ok {total last : Int} {recipients : List TransferRecipient} {texts : List ByteString}
    (htotal : total < 2 ^ 63) (h : recipientAmounts total recipients = .ok (texts, last)) :
    ∃ ks, recipients.mapM (·.amountLL) = .ok ks ∧ texts = ks.map Decimal.ofInt ∧ last = total + ks.sum ∧ last < 2 ^ 63 := by
  induction recipients generalizing total texts with
  | nil =>
    obtain ⟨rfl, rfl⟩ := Prod.mk.inj (Except.ok.inj h)
    exact ⟨[], rfl, rfl, by simp, htotal⟩
  | cons r recipients ih =>
    obtain ⟨amt, hamt, h⟩ := Throws.bind_ok h
    obtain ⟨next, hnext, h⟩ := Throws.bind_ok h
    obtain ⟨rest, hrest, h⟩ := Throws.bind_ok h
    obtain ⟨rfl, rfl⟩ := Prod.mk.inj (Except.ok.inj h)
    obtain ⟨rfl, hrange⟩ := signed_ok.mp hnext
    obtain ⟨ks, hks, htexts, hlast, hhigh⟩ := ih hrange.2 hrest
    refine ⟨amt :: ks, ?_, ?_, ?_, hhigh⟩
    · rw [List.mapM_cons, hamt, hks]
      rfl
    · rw [htexts, List.map_cons]
    · rw [hlast, List.sum_cons, add_assoc]

theorem defined_recipientAmounts {total : Int} {recipients : List TransferRecipient} {ks : List Int}
    (htotal : 0 ≤ total) (hks : recipients.mapM (·.amountLL) = .ok ks) (hnonneg : ∀ k ∈ ks, 0 ≤ k)
    (hsum : total + ks.sum < 2 ^ 63) : Defined (recipientAmounts total recipients) := by
  induction recipients generalizing total ks with
  | nil => exact .ok _
  | cons r recipients ih =>
    rw [List.mapM_cons] at hks
    obtain ⟨amt, hamt, hks⟩ := Throws.bind_ok hks
    obtain ⟨rest, hrest, hks⟩ := Throws.bind_ok hks
    obtain rfl := Except.ok.inj hks
    rw [List.sum_cons, ← add_assoc] at hsum
    have hhead := hnonneg amt List.mem_cons_self
    have htail : ∀ k ∈ rest, 0 ≤ k := fun k hk => hnonneg k (List.mem_cons_of_mem _ hk)
    have hpos := List.sum_nonneg htail
    rw [recipientAmounts, hamt]
    refine .bind_of_ok (.ok _) fun a ha => ?_
    obtain rfl := Except.ok.inj ha
    refine .bind_of_ok (defined_signed (by norm_num; omega) (by norm_num; omega)) fun next hnext => ?_
    obtain ⟨rfl, -⟩ := signed_ok.mp hnext
    exact .bind (ih (by omega) hrest htail hsum) fun _ => .ok _

end Amounts

end ValueOperation

section Settling

variable {E : Type} {S : Setting E} {w₀ w t : World E} {α β : Type} {P : World E → Secret → Molecule → Prop} {U : Prop}

/-- What a call leaves, and why where it runs into an operation without meaning. -/
structure Settles (S : Setting E) (w : World E) (P : World E → Secret → Molecule → Prop) (U : Prop)
    (r : Throws β × World E) : Prop where
  outcome : Outcome S w P r.2
  undefined : r.1 = .error .undefinedBehavior → U

/-- A new wallet has no units. -/
theorem newWallet_units {secret : Secret} {token position : ByteString} {mlkemParameterSet otsVersion : Int}
    {wallet : Wallet} (h : (newWallet S secret token position mlkemParameterSet otsVersion).exec w = (.ok wallet, t)) :
    wallet.tokenUnits = [] := by
  obtain ⟨_, _, hnew⟩ | ⟨_, _, hnew⟩ := newWallet_ok h
  · obtain ⟨_, _, _, _, rfl⟩ := Wallet.new_ok hnew
    rfl
  · obtain ⟨_, _, _, _, rfl⟩ := Wallet.new_ok hnew
    rfl

namespace Settles

theorem bind {x : Run E α} {f : α → Run E β} (hx : Act.Moves (Quiet S) x)
    (hundefined : (x.exec w).1 = .error .undefinedBehavior → U) (hw : Quiet S w₀ w)
    (hf : ∀ a t, x.exec w = (.ok a, t) → Quiet S w t → Quiet S w₀ t → Settles S w₀ P U ((f a).exec t)) :
    Settles S w₀ P U ((x >>= f).exec w) := by
  refine ⟨.bind hx hw fun a t h hwt ht => (hf a t h hwt ht).outcome, fun h => ?_⟩
  have hmoves := hx w
  rw [Act.exec_bind] at h
  rcases hexec : x.exec w with ⟨r, t⟩
  rw [hexec] at h hmoves hundefined
  cases r with
  | error e =>
    obtain rfl := Except.error.inj h
    exact hundefined rfl
  | ok a => exact (hf a t hexec hmoves (hw.trans hmoves)).undefined h

/-- A part that always has a meaning. -/
theorem step {x : Run E α} {f : α → Run E β} (hx : Act.Moves (Quiet S) x) (hdefines : Defines x) (hw : Quiet S w₀ w)
    (hf : ∀ a t, x.exec w = (.ok a, t) → Quiet S w t → Quiet S w₀ t → Settles S w₀ P U ((f a).exec t)) :
    Settles S w₀ P U ((x >>= f).exec w) :=
  bind hx (fun h => absurd h (Defined.ne (hdefines w))) hw hf

theorem get {f : World E → Run E β} (hf : Settles S w₀ P U ((f w).exec w)) :
    Settles S w₀ P U ((MonadState.get >>= f : Run E β).exec w) := hf

protected theorem ensureAuthenticated {f : Unit → Run E β} (hw : Quiet S w₀ w) (hf : Settles S w₀ P U ((f ()).exec w)) :
    Settles S w₀ P U ((ensureAuthenticated >>= f).exec w) := by
  refine step moves_ensureAuthenticated defines_ensureAuthenticated hw fun a t h _ _ => ?_
  obtain ⟨_, rfl⟩ := ensureAuthenticated_ok h
  exact hf

protected theorem secretValue {f : Secret → Run E β} (hw : Quiet S w₀ w)
    (hf : ∀ secret, w.client.secret = some secret → Settles S w₀ P U ((f secret).exec w)) :
    Settles S w₀ P U ((secretValue >>= f).exec w) := by
  refine step moves_secretValue defines_secretValue hw fun secret t h _ _ => ?_
  obtain ⟨hsecret, rfl⟩ := secretValue_ok h
  exact hf secret hsecret

protected theorem getBundle {f : ByteString → Run E β} (hw : Quiet S w₀ w)
    (hf : ∀ bundle, w.client.bundle = some bundle → Settles S w₀ P U ((f bundle).exec w)) :
    Settles S w₀ P U ((getBundle >>= f).exec w) := by
  refine step moves_getBundle defines_getBundle hw fun bundle t h _ _ => ?_
  obtain ⟨hbundle, rfl⟩ := getBundle_ok h
  exact hf bundle hbundle

theorem require {c : Prop} [Decidable c] {e : Exception} {f : PUnit → Run E β} (he : e.IsThrown) (hw : Quiet S w₀ w)
    (hf : c → Settles S w₀ P U ((f ⟨⟩).exec w)) : Settles S w₀ P U ((Act.require c e >>= f).exec w) := by
  refine step (moves_require _ _) (.require he) hw fun a t h _ _ => ?_
  obtain ⟨hc, rfl⟩ := require_ok h
  exact hf hc

theorem ofExcept {r : Throws α} {f : α → Run E β} (hundefined : r = .error .undefinedBehavior → U) (hw : Quiet S w₀ w)
    (hf : ∀ a, r = .ok a → Settles S w₀ P U ((f a).exec w)) : Settles S w₀ P U ((Act.ofExcept r >>= f).exec w) := by
  refine bind (Act.Moves.ofExcept r) hundefined hw fun a t h _ _ => ?_
  obtain ⟨hr, rfl⟩ := Prod.mk.inj h
  exact hf a hr

protected theorem newWallet {secret : Secret} {token position : ByteString} {mlkemParameterSet otsVersion : Int}
    {f : Wallet → Run E β}
    (hw : Quiet S w₀ w)
    (hf : ∀ wallet t, wallet.tokenUnits = [] → Quiet S w₀ t → Settles S w₀ P U ((f wallet).exec t)) :
    Settles S w₀ P U ((newWallet S secret token position mlkemParameterSet otsVersion >>= f).exec w) := by
  exact step (moves_newWallet _ _ _ _ _) (defines_newWallet _ _ _ _ _) hw fun wallet t h _ ht =>
    hf wallet t (newWallet_units h) ht

/-- The Balance query, whose row must be spendable, and the wallet of that row. -/
theorem row {bundle token : ByteString} {buffer : Bool} {e : Exception} {f : TokenWalletInfo → Run E β} (he : e.IsThrown)
    (hf : ∀ info, info = (S.serve (.balance bundle token buffer) w.env).1.tokenWallet S.floatText →
      Settles S w P U ((f info).exec (w.asked S (.balance bundle token buffer)))) :
    Settles S w P U ((do
      let src ← resolveTokenWallet S bundle token buffer
      Act.require src.found e
      f src : Run E β).exec w) := by
  refine step (moves_resolveTokenWallet _ _ _) (defines_resolveTokenWallet _ _ _) .refl fun info t h _ ht =>
    require he ht fun hfound => ?_
  obtain ⟨rfl, hinfo⟩ := resolveTokenWallet_ok h
  exact hf info hinfo

/-- The end of a call: the molecule is built on its two wallets, signed, checked and sent. -/
protected theorem assemble {cellSlug : ByteString} {source remainder : Wallet} {b : Molecule.Builder} (hw : Quiet S w₀ w)
    (hundefined : ∀ clock, (b.run clock).run (Molecule.withWallets cellSlug (clock 0) source remainder) =
      .error .undefinedBehavior → U)
    (hP : ∀ secret m, SignedBy S.hash cellSlug source remainder b secret m → P w secret m) :
    Settles S w₀ P U
      ((assemble S cellSlug source remainder b >>= fun m => submitMolecule S m).exec w) := by
  refine ⟨outcome_assemble hw fun secret m _ hsigned _ => hP secret m hsigned, fun h => ?_⟩
  have hassemble : (assemble S cellSlug source remainder b).exec w =
      (((b.run (S.clock w.drawn)).run (Molecule.withWallets cellSlug (S.clock w.drawn 0) source remainder)).map (·.2), w) := by
    simp only [assemble, Act.exec_bind, Act.exec_get, Act.andThen_ok, Act.exec_ofExcept]
    cases (b.run (S.clock w.drawn)).run (Molecule.withWallets cellSlug (S.clock w.drawn 0) source remainder) <;> rfl
  rw [Act.exec_bind, hassemble] at h
  cases hbuild : (b.run (S.clock w.drawn)).run (Molecule.withWallets cellSlug (S.clock w.drawn 0) source remainder) with
  | error e =>
    rw [hbuild] at h
    obtain rfl := Except.error.inj h
    exact hundefined _ hbuild
  | ok built =>
    rw [hbuild] at h
    exact absurd h (Defined.ne (defines_submitMolecule _ _))

end Settles

end Settling

namespace ValueOperation

variable {E : Type} {S : Setting E} {w : World E} {op : ValueOperation} {ks : List Int}

theorem splitUnits_balance (w : Wallet) (units : List ByteString) (remainder : Wallet) (recipient : Option Wallet) :
    (w.splitUnits units remainder recipient).1.balance = w.balance := by
  obtain ⟨sent, hsplit⟩ := Wallet.splitUnits_source w units remainder recipient
  rw [hsplit]

theorem splitUnitsMulti_balance (w : Wallet) (lists : List (List ByteString)) (recipients : List Wallet)
    (remainder : Wallet) : (w.splitUnitsMulti lists recipients remainder).1.balance = w.balance := by
  obtain ⟨sent, hsplit⟩ := Wallet.splitUnitsMulti_source w lists recipients remainder
  rw [hsplit]

theorem length_splitUnitsMulti (w : Wallet) (lists : List (List ByteString)) (recipients : List Wallet)
    (remainder : Wallet) : (w.splitUnitsMulti lists recipients remainder).2.1.length = recipients.length := by
  unfold Wallet.splitUnitsMulti
  split
  · rfl
  · simp

/-- The source of the builder call holds the balance that the operation reads. -/
theorem Builds.source_balance {b : Molecule.Builder} (h : op.Builds (op.row S w) ks b) :
    b.source.balance = op.balance S w := by
  cases h with
  | transferToken | burnToken => exact splitUnits_balance _ _ _ _
  | transferTokens => exact splitUnitsMulti_balance _ _ _ _
  | depositBufferToken | withdrawRow | withdrawGiven => rfl

theorem Builds.amounts_eq {info : TokenWalletInfo} {b : Molecule.Builder} (h : op.Builds info ks b) :
    op.amounts = .ok ks := by
  cases h with
  | transferToken _ _ _ hk | burnToken _ _ _ hk | depositBufferToken _ _ _ hk | withdrawRow _ _ _ hk
  | withdrawGiven _ _ _ hk => rw [amounts, hk, Except.map]
  | transferTokens _ _ _ hks => exact hks

/-- A molecule of the operation: built by it on the reported row, within the reported balance, and signed. -/
def Proposes (S : Setting E) (w : World E) (op : ValueOperation) (ks : List Int) (secret : Secret) (m : Molecule) : Prop :=
  ∃ b cellSlug source remainder, op.Builds (op.row S w) ks b ∧ ks.sum ≤ spendable b.source.balance ∧
    SignedBy S.hash cellSlug source remainder b secret m

/-- None of the amounts is negative, and their sum is a `long long`. -/
def Fits (ks : List Int) : Prop := (∀ k ∈ ks, 0 ≤ k) ∧ ks.sum < 2 ^ 63

/-- The amounts do not convert, or do not fit. -/
def Unfit (op : ValueOperation) : Prop := ∀ ks, op.amounts = .ok ks → ¬ Fits ks

/-- The operation sends a molecule of its own or none, and what has no meaning comes from amounts that do not fit. -/
def SettlesAt (S : Setting E) (w : World E) (op : ValueOperation) : Prop :=
  Settles S w (fun _ secret m => ∃ ks, op.Proposes S w ks secret m) op.Unfit ((op.run S).exec w)

theorem unfit_of_error {r : Throws Int} (h : r = .error .undefinedBehavior) :
    ∀ ks, r.map ([·]) = .ok ks → ¬ Fits ks := by
  rw [h]
  nofun

theorem unfit_singleton {r : Throws Int} {k : Int} (hk : r = .ok k) (h : ¬ Fits [k]) :
    ∀ ks, r.map ([·]) = .ok ks → ¬ Fits ks := by
  intro ks hks
  rw [hk] at hks
  exact Except.ok.inj hks ▸ h

theorem fits_singleton {k : Int} (h : Fits [k]) : 0 ≤ k := h.1 k (List.mem_singleton_self k)

theorem settles_transferToken (bundleHash token : ByteString) (amount : BinaryFloat.Value) (batchId : ByteString)
    (units : List ByteString) :
    (transferToken bundleHash token amount batchId units).SettlesAt S w := by
  refine .ensureAuthenticated .refl (.secretValue .refl fun secret hsecret => .getBundle .refl fun bundle hbundle => ?_)
  refine .row (Exception.isThrown_knishio _) fun info hinfo => .ofExcept unfit_of_error (quiet_of_balance .refl) fun k hk => ?_
  refine .require nofun (quiet_of_balance .refl) fun hguard => .get ?_
  refine .step (moves_ledgerWallet _ _ _ _) (defines_ledgerWallet _ _ _ _) (quiet_of_balance .refl) fun ledger t _ _ ht => ?_
  refine .newWallet ht fun drawn u hdrawn hu => .newWallet hu fun fresh v hfresh hv => ?_
  have hrow : (transferToken bundleHash token amount batchId units).row S w = info := by
    rw [hinfo, row, hbundle]
    rfl
  have hbalance : k ≤ spendable
      (Wallet.splitUnits (info.fund ledger) units fresh (some (shadowOf drawn bundleHash batchId))).1.balance := by
    rw [splitUnits_balance]
    exact hguard
  refine .assemble hv (fun clock h => unfit_singleton hk fun hfits => ?_) fun secret m hsigned => ?_
  · exact Defined.ne (defined_initValue (fits_singleton hfits) hbalance _) h
  · refine ⟨[k], _, _, _, _, hrow.symm ▸ .transferToken ledger _ fresh hk hdrawn hfresh, ?_, hsigned⟩
    rwa [List.sum_singleton]

theorem settles_burnToken (token : ByteString) (amount : BinaryFloat.Value) (units : List ByteString) :
    (burnToken token amount units).SettlesAt S w := by
  refine .ensureAuthenticated .refl (.secretValue .refl fun secret hsecret => .getBundle .refl fun bundle hbundle => ?_)
  refine .row (Exception.isThrown_knishio _) fun info hinfo => .ofExcept unfit_of_error (quiet_of_balance .refl) fun k hk => ?_
  refine .require nofun (quiet_of_balance .refl) fun hguard => .get ?_
  refine .step (moves_ledgerWallet _ _ _ _) (defines_ledgerWallet _ _ _ _) (quiet_of_balance .refl) fun ledger t _ _ ht => ?_
  refine .newWallet ht fun drawn u hdrawn hu => .newWallet hu fun fresh v hfresh hv => ?_
  have hrow : (burnToken token amount units).row S w = info := by
    rw [hinfo, row, hbundle]
    rfl
  have hbalance : k ≤ spendable (Wallet.splitUnits (info.fund ledger) units fresh none).1.balance := by
    rw [splitUnits_balance]
    exact hguard
  refine .assemble hv (fun clock h => unfit_singleton hk fun hfits => ?_) fun secret m hsigned => ?_
  · exact Defined.ne (defined_initValue (fits_singleton hfits) hbalance _) h
  · refine ⟨[k], _, _, _, _, hrow.symm ▸ .burnToken ledger _ fresh hk hdrawn hfresh, ?_, hsigned⟩
    rwa [List.sum_singleton]

theorem settles_depositBufferToken (token : ByteString) (amount : BinaryFloat.Value) (tradeRates : Metas) :
    (depositBufferToken token amount tradeRates).SettlesAt S w := by
  refine .ensureAuthenticated .refl (.secretValue .refl fun secret hsecret => .getBundle .refl fun bundle hbundle => ?_)
  refine .row (Exception.isThrown_knishio _) fun info hinfo => .ofExcept unfit_of_error (quiet_of_balance .refl) fun k hk => ?_
  refine .require nofun (quiet_of_balance .refl) fun hguard => .get ?_
  refine .step (moves_ledgerWallet _ _ _ _) (defines_ledgerWallet _ _ _ _) (quiet_of_balance .refl) fun ledger t _ _ ht => ?_
  refine .newWallet ht fun bufferWallet u _ hu => .newWallet hu fun fresh v _ hv => ?_
  have hrow : (depositBufferToken token amount tradeRates).row S w = info := by
    rw [hinfo, row, hbundle]
    rfl
  refine .assemble hv (fun clock h => unfit_singleton hk fun hfits => ?_) fun secret m hsigned => ?_
  · exact Defined.ne (defined_initDepositBuffer (fits_singleton hfits) hguard _) h
  · refine ⟨[k], _, _, _, _, hrow.symm ▸ .depositBufferToken ledger bufferWallet fresh hk, ?_, hsigned⟩
    rwa [List.sum_singleton]

/-- The rest of a withdrawal, from its source wallet on. -/
theorem settles_withdrawFrom {t : World E} {secret : Secret} {senderBundle token : ByteString}
    {amount : BinaryFloat.Value} {config : Config} {source : Wallet} {given : Option Wallet} (ht : Quiet S w t)
    (hbuilds : ∀ (recipient fresh : Wallet) (k : Int), toLongLong amount = .ok k →
      (withdrawBufferToken token amount given).Builds ((withdrawBufferToken token amount given).row S w) [k]
        (.initWithdrawBuffer source [recipient] [Decimal.ofInt k] fresh)) :
    Settles S w (fun _ secret m => ∃ ks, (withdrawBufferToken token amount given).Proposes S w ks secret m)
      (withdrawBufferToken token amount given).Unfit
        ((withdrawFrom S secret senderBundle token amount config source).exec t) := by
  refine .ofExcept unfit_of_error ht fun k hk => ?_
  refine .require nofun ht fun hguard => .newWallet ht fun drawn u _ hu => ?_
  refine .step ?_ ?_ hu fun batchId v _ _ hv => .newWallet hv fun fresh x _ hx => ?_
  · split
    · exact Act.Moves.pure _
    · exact moves_randomHex
  · split
    · exact .pure _
    · exact fun _ => .ok _
  have hsum : List.sum [k] ≤ spendable source.balance := by rwa [List.sum_singleton]
  refine .assemble hx (fun clock h => unfit_singleton hk fun hfits => ?_) fun secret m hsigned => ?_
  · exact Defined.ne (defined_initWithdrawBuffer rfl hfits.1 hfits.2 hsum _) h
  · exact ⟨_, _, _, _, _, hbuilds _ _ k hk, hsum, hsigned⟩

theorem settles_withdrawBufferToken (token : ByteString) (amount : BinaryFloat.Value) (given : Option Wallet) :
    (withdrawBufferToken token amount given).SettlesAt S w := by
  refine .ensureAuthenticated .refl (.secretValue .refl fun secret hsecret => .getBundle .refl fun bundle hbundle => ?_)
  refine .get ?_
  cases given with
  | some given => exact settles_withdrawFrom .refl fun recipient fresh k hk => .withdrawGiven given recipient fresh hk
  | none =>
    simp only [bufferSource, Act.bind_assoc]
    refine .row (Exception.isThrown_knishio _) fun info hinfo => ?_
    refine .step (moves_ledgerWallet _ _ _ _) (defines_ledgerWallet _ _ _ _) (quiet_of_balance .refl)
      fun ledger t _ _ ht => ?_
    have hrow : (withdrawBufferToken token amount none).row S w = info := by
      rw [hinfo, row, hbundle]
      rfl
    exact settles_withdrawFrom ht fun recipient fresh k hk => hrow.symm ▸ .withdrawRow ledger recipient fresh hk

/-- One shadow wallet for each recipient, without units. -/
theorem recipientShadows_ok {secret : Secret} {token : ByteString} {recipients : List TransferRecipient} {t : World E}
    {shadows : List Wallet} (h : (recipientShadows S secret token recipients).exec w = (.ok shadows, t)) :
    shadows.length = recipients.length ∧ ∀ s ∈ shadows, s.tokenUnits = [] := by
  induction recipients generalizing w t shadows with
  | nil =>
    obtain ⟨hshadows, -⟩ := Prod.mk.inj h
    obtain rfl := Except.ok.inj hshadows
    exact ⟨rfl, by simp⟩
  | cons r recipients ih =>
    obtain ⟨drawn, u, hdrawn, h⟩ := Act.bind_eq_ok.mp h
    obtain ⟨rest, v, hrest, h⟩ := Act.bind_eq_ok.mp h
    obtain ⟨hlength, hempty⟩ := ih hrest
    obtain ⟨hshadows, -⟩ := Prod.mk.inj h
    obtain rfl := Except.ok.inj hshadows
    have hunits : drawn.tokenUnits = [] := newWallet_units hdrawn
    exact ⟨congrArg (· + 1) hlength, List.forall_mem_cons.mpr ⟨hunits, hempty⟩⟩

theorem settles_transferTokens (token : ByteString) (recipients : List TransferRecipient) :
    (transferTokens token recipients).SettlesAt S w := by
  refine .ensureAuthenticated .refl (.secretValue .refl fun secret hsecret => .getBundle .refl fun bundle hbundle => ?_)
  refine .ofExcept (fun h ks hks hfits => ?_) .refl fun sums hsums => ?_
  · exact Defined.ne (defined_recipientAmounts le_rfl hks hfits.1 (by simpa using hfits.2)) h
  obtain ⟨texts, total⟩ := sums
  obtain ⟨ks, hks, rfl, rfl, hhigh⟩ := recipientAmounts_ok (by norm_num) hsums
  rw [zero_add] at hhigh
  refine .row (Exception.isThrown_knishio _) fun info hinfo => .require nofun (quiet_of_balance .refl) fun hguard => .get ?_
  rw [zero_add] at hguard
  refine .step (moves_ledgerWallet _ _ _ _) (defines_ledgerWallet _ _ _ _) (quiet_of_balance .refl) fun ledger t _ _ ht => ?_
  refine .step (moves_recipientShadows _ _ _) (defines_recipientShadows _ _ _) ht fun shadows u hshadows _ hu => ?_
  obtain ⟨hlength, hempty⟩ := recipientShadows_ok hshadows
  refine .newWallet hu fun fresh v hfresh hv => ?_
  have hrow : (transferTokens token recipients).row S w = info := by
    rw [hinfo, row, hbundle]
    rfl
  have hbalance : ks.sum ≤ spendable
      (Wallet.splitUnitsMulti (info.fund ledger) (recipients.map (·.units)) shadows fresh).1.balance := by
    rw [splitUnitsMulti_balance]
    exact hguard
  refine .assemble hv (fun clock h ks' hks' hfits => ?_) fun secret m hsigned => ?_
  · obtain rfl : ks = ks' := Except.ok.inj (hks.symm.trans hks')
    refine Defined.ne (defined_initValues ?_ hfits.1 hfits.2 hbalance _) h
    rw [length_splitUnitsMulti, hlength, (Throws.mapM_ok_iff.mp hks).length_eq]
  · refine ⟨ks, _, _, _, _, hrow.symm ▸ .transferTokens ledger shadows fresh hks hhigh hlength hempty hfresh, ?_, hsigned⟩
    exact hbalance

/-- What a value operation leaves. -/
theorem settles (S : Setting E) (w : World E) (op : ValueOperation) : op.SettlesAt S w := by
  cases op with
  | transferToken bundleHash token amount batchId units => exact settles_transferToken bundleHash token amount batchId units
  | transferTokens token recipients => exact settles_transferTokens token recipients
  | burnToken token amount units => exact settles_burnToken token amount units
  | depositBufferToken token amount tradeRates => exact settles_depositBufferToken token amount tradeRates
  | withdrawBufferToken token amount sourceWallet => exact settles_withdrawBufferToken token amount sourceWallet

end ValueOperation

end KnishIO
