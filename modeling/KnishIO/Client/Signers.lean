import KnishIO.Client.Trace

open ByteString

namespace KnishIO

variable {E : Type} {S : Setting E} {w t : World E}

section Sources

/-- The signer of a USER operation: a fresh wallet where the reply names no pointer, else the wallet at
the pointer. -/
inductive UserSource (S : Setting E) (w : World E) (secret : Secret) (mlKemParameterSet : Int) (reply : Reply)
    (source : Wallet) : Prop where
  | fresh (hpointer : (reply.pointer S.floatText).1 = [])
      (hnew : Wallet.new S.hash S.kem secret.bytes (ascii "USER") (S.draw w.drawn).bytes mlKemParameterSet
        w.client.config.otsVersion = .ok source)
  | pointer (version : Int) (hpointer : (reply.pointer S.floatText).1 ≠ [])
      (hbind : w.client.bindOwnWalletOtsVersion S.hash (ascii "USER") (reply.pointer S.floatText).1
        (reply.pointer S.floatText).2 = .ok version)
      (hnew : Wallet.new S.hash S.kem secret.bytes (ascii "USER") (reply.pointer S.floatText).1 mlKemParameterSet
        version = .ok source)

theorem continuIdSourceWallet_ok {bundle : ByteString} {mlKemParameterSet : Int} {source : Wallet}
    (h : (continuIdSourceWallet S bundle mlKemParameterSet).exec w = (.ok source, t)) :
    ∃ secret k, w.client.secret = some secret ∧ w.drawn ≤ k ∧ t = { w.asked S (.continuId bundle) with drawn := k } ∧
      UserSource S w secret mlKemParameterSet (S.serve (.continuId bundle) w.env).1 source := by
  have hquery : (tryCatch (do return (← query S (.continuId bundle)).pointer S.floatText) fun _ => return ([], []) :
      Run E (ByteString × ByteString)).exec w =
        (.ok ((S.serve (.continuId bundle) w.env).1.pointer S.floatText), w.asked S (.continuId bundle)) := by
    simp only [Act.exec_tryCatch, Act.exec_bind, query, exec_exchange, permit_continuId, Act.andThen_ok, Act.exec_pure]
    rfl
  simp only [continuIdSourceWallet, Act.exec_bind, hquery, Act.andThen_ok] at h
  rcases hsecret : (secretValue : Run E Secret).exec (w.asked S (.continuId bundle)) with ⟨_ | secret, u⟩
  · simp [hsecret] at h
  obtain ⟨hheld, rfl⟩ := secretValue_ok hsecret
  simp only [hsecret, Act.andThen_ok, Act.exec_bind, Act.exec_get] at h
  split at h
  next hpointer =>
    obtain ⟨_, rfl, hnew⟩ | ⟨hne, _⟩ := newWallet_ok h
    · exact ⟨secret, w.drawn + 1, hheld, Nat.le_succ _, rfl, .fresh hpointer hnew⟩
    · exact absurd rfl hne
  next hpointer =>
    simp only [Act.exec_bind, Act.exec_ofExcept] at h
    cases hbind : (w.asked S (.continuId bundle)).client.bindOwnWalletOtsVersion S.hash (ascii "USER")
      ((S.serve (.continuId bundle) w.env).1.pointer S.floatText).1
      ((S.serve (.continuId bundle) w.env).1.pointer S.floatText).2 with
    | error e => simp [hbind] at h
    | ok version =>
      simp only [hbind, Act.andThen_ok] at h
      obtain ⟨hempty, _⟩ | ⟨_, rfl, hnew⟩ := newWallet_ok h
      · exact absurd hempty hpointer
      · exact ⟨secret, w.drawn, hheld, le_rfl, rfl, .pointer version hpointer hbind hnew⟩

/-- A row that the operation goes on with is the row of the reply. -/
theorem resolveTokenWallet_ok {bundle token : ByteString} {buffer : Bool} {info : TokenWalletInfo}
    (h : (resolveTokenWallet S bundle token buffer).exec w = (.ok info, t)) :
    t = w.asked S (.balance bundle token buffer) ∧
      info = (S.serve (.balance bundle token buffer) w.env).1.tokenWallet S.floatText := by
  simp only [resolveTokenWallet, Act.exec_tryCatch, Act.exec_bind, query, exec_exchange] at h
  cases hpermit : w.client.transport.permit (.balance bundle token buffer) with
  | ok _ =>
    simp only [hpermit, Act.andThen_ok, Act.exec_pure, Prod.mk.injEq, Except.ok.injEq] at h
    exact ⟨h.2.symm, h.1.symm⟩
  | error e =>
    simp only [hpermit, Act.andThen_error, if_pos (permit_kind hpermit)] at h
    cases h

theorem Reply.tokenWallet_position (F : Json.FloatText) (reply : Reply)
    (hfound : (reply.tokenWallet F).found = true) : (reply.tokenWallet F).position ≠ [] := by
  unfold Reply.tokenWallet at hfound ⊢
  cases hrow : reply.row F "Balance" with
  | none => simp [hrow] at hfound
  | some bal =>
    simp only [hrow, Bool.and_eq_true, decide_eq_true_eq] at hfound
    exact hfound.1

theorem ledgerWallet_ok {secret : Secret} {token : ByteString} {mlKemParameterSet : Int} {info : TokenWalletInfo}
    {ledger : Wallet} (hposition : info.position ≠ [])
    (h : (ledgerWallet S secret token mlKemParameterSet info).exec w = (.ok ledger, t)) :
    t = w ∧ ∃ version, w.client.bindOwnWalletOtsVersion S.hash token info.position info.address = .ok version ∧
      Wallet.new S.hash S.kem secret.bytes token info.position mlKemParameterSet version = .ok ledger := by
  simp only [ledgerWallet, Act.exec_bind, Act.exec_get, Act.andThen_ok, Act.exec_ofExcept] at h
  cases hbind : w.client.bindOwnWalletOtsVersion S.hash token info.position info.address with
  | error e => simp [hbind] at h
  | ok version =>
    simp only [hbind, Act.andThen_ok] at h
    obtain ⟨hempty, _⟩ | ⟨_, rfl, hnew⟩ := newWallet_ok h
    · exact absurd hempty hposition
    · exact ⟨rfl, version, rfl, hnew⟩

end Sources

namespace Outcome

variable {β : Type} {P : World E → Secret → Molecule → Prop}

theorem ensureAuthenticated {w₀ : World E} {f : Unit → Run E β} (hw : Quiet S w₀ w)
    (hf : Outcome S w₀ P ((f ()).exec w).2) : Outcome S w₀ P ((ensureAuthenticated >>= f).exec w).2 := by
  refine Outcome.bind moves_ensureAuthenticated hw fun a t h _ _ => ?_
  obtain ⟨_, rfl⟩ := ensureAuthenticated_ok h
  exact hf

theorem secretValue {w₀ : World E} {f : Secret → Run E β} (hw : Quiet S w₀ w)
    (hf : ∀ secret, w.client.secret = some secret → Outcome S w₀ P ((f secret).exec w).2) :
    Outcome S w₀ P ((secretValue >>= f).exec w).2 := by
  refine Outcome.bind moves_secretValue hw fun secret t h _ _ => ?_
  obtain ⟨hsecret, rfl⟩ := secretValue_ok h
  exact hf secret hsecret

theorem getBundle {w₀ : World E} {f : ByteString → Run E β} (hw : Quiet S w₀ w)
    (hf : ∀ bundle, w.client.bundle = some bundle → Outcome S w₀ P ((f bundle).exec w).2) :
    Outcome S w₀ P ((getBundle >>= f).exec w).2 := by
  refine Outcome.bind moves_getBundle hw fun bundle t h _ _ => ?_
  obtain ⟨hbundle, rfl⟩ := getBundle_ok h
  exact hf bundle hbundle

theorem require {w₀ : World E} {c : Prop} [Decidable c] {e : Exception} {f : PUnit → Run E β} (hw : Quiet S w₀ w)
    (hf : c → Outcome S w₀ P ((f ⟨⟩).exec w).2) : Outcome S w₀ P ((Act.require c e >>= f).exec w).2 := by
  refine Outcome.bind (moves_require _ _) hw fun a t h _ _ => ?_
  obtain ⟨hc, rfl⟩ := require_ok h
  exact hf hc

theorem ofExcept {α : Type} {w₀ : World E} {r : Throws α} {f : α → Run E β} (hw : Quiet S w₀ w)
    (hf : ∀ a, r = .ok a → Outcome S w₀ P ((f a).exec w).2) : Outcome S w₀ P ((Act.ofExcept r >>= f).exec w).2 := by
  refine Outcome.bind (Act.Moves.ofExcept r) hw fun a t h _ _ => ?_
  obtain ⟨hr, rfl⟩ := Prod.mk.inj h
  exact hf a hr

end Outcome

section UserOperations

/-- What an operation of the USER chain sends: a molecule with a ContinuID atom, signed by the wallet that
the pointer query led to, with a remainder wallet drawn afterwards at the successor's version. -/
structure UserSigned (S : Setting E) (w t : World E) (secret : Secret) (bundle cellSlug : ByteString)
    (mlKemParameterSet : Int) (source remainder : Wallet) (b : Molecule.Builder) (m : Molecule) : Prop where
  secret_eq : w.client.secret = some secret
  bundle_eq : w.client.bundle = some bundle
  asked : Quiet S (w.asked S (.continuId bundle)) t
  source_of : UserSource S w secret mlKemParameterSet (S.serve (.continuId bundle) w.env).1 source
  remainder_of : ∃ k, w.drawn ≤ k ∧ k < t.drawn ∧
    Wallet.new S.hash S.kem secret.bytes (ascii "USER") (S.draw k).bytes mlKemParameterSet
      (w.client.config.successorOtsVersion source.otsVersion) = .ok remainder
  source_eq : b.source = source
  continuId : b.continuId = true
  signed : SignedBy S.hash cellSlug source remainder b secret m
  checked : Molecule.check S.hash m = .ok ()

/-- The relation of `UserSigned` between the state a molecule is sent from, its signer and itself. -/
def IsUserSigned (S : Setting E) (w t : World E) (secret : Secret) (m : Molecule) : Prop :=
  ∃ bundle cellSlug mlKemParameterSet source remainder b,
    UserSigned S w t secret bundle cellSlug mlKemParameterSet source remainder b m

variable {secret : Secret} {bundle cellSlug : ByteString} {mlKemParameterSet : Int}

/-- The end of a USER operation, once its remainder wallet is drawn. -/
theorem outcome_userSigned {u v : World E} {source remainder : Wallet} {b : Molecule.Builder}
    (hsecret : w.client.secret = some secret) (hbundle : w.client.bundle = some bundle)
    (hasked : Quiet S (w.asked S (.continuId bundle)) t)
    (hsource : UserSource S w secret mlKemParameterSet (S.serve (.continuId bundle) w.env).1 source)
    (hremainder : (newWallet S secret (ascii "USER") [] mlKemParameterSet
      (w.client.config.successorOtsVersion source.otsVersion)).exec t = (.ok remainder, u))
    (huv : Quiet S u v) (hb : b.source = source) (hcontinuId : b.continuId = true) :
    Outcome S w (IsUserSigned S w)
      ((assemble S cellSlug source remainder b >>= fun m => submitMolecule S m).exec v).2 := by
  obtain ⟨_, rfl, hnew⟩ | ⟨hne, _⟩ := newWallet_ok hremainder
  · have hfrom : Quiet S w t := (Quiet.ask (.continuId bundle) rfl .refl).trans hasked
    have htv : Quiet S t v := (Quiet.draw .refl).trans huv
    refine outcome_assemble (hfrom.trans htv) fun secret' m hheld hsigned hcheck => ?_
    obtain rfl : secret' = secret := by
      rw [(hfrom.trans htv).client, hsecret] at hheld
      exact (Option.some.inj hheld).symm
    exact ⟨bundle, cellSlug, mlKemParameterSet, source, remainder, b, hsecret, hbundle, hasked.trans htv, hsource,
      ⟨t.drawn, hfrom.drawn, huv.drawn, hnew⟩, hb, hcontinuId, hsigned, hcheck⟩
  · exact absurd rfl hne

/-- The beginning of a USER operation: the pointer query and its source wallet. -/
theorem Outcome.userSource {β : Type} {P : World E → Secret → Molecule → Prop} {f : Wallet → Run E β}
    (hsecret : w.client.secret = some secret)
    (hf : ∀ source t, Quiet S (w.asked S (.continuId bundle)) t →
      UserSource S w secret mlKemParameterSet (S.serve (.continuId bundle) w.env).1 source →
        Outcome S w P ((f source).exec t).2) :
    Outcome S w P ((continuIdSourceWallet S bundle mlKemParameterSet >>= f).exec w).2 := by
  refine Outcome.bind (moves_continuIdSourceWallet _ _) .refl fun source t h _ _ => ?_
  obtain ⟨secret', k, hheld, hk, rfl, hsource⟩ := continuIdSourceWallet_ok h
  obtain rfl : secret' = secret := Option.some.inj (hheld.symm.trans hsecret)
  exact hf source _ (quiet_drawn hk) hsource

theorem quiet_of_asked {bundle : ByteString} (h : Quiet S (w.asked S (.continuId bundle)) t) : Quiet S w t :=
  (Quiet.ask (.continuId bundle) rfl .refl).trans h

theorem outcome_createToken (token : ByteString) (amount : BinaryFloat.Value) (tokenMeta : Metas)
    (units : List ByteString) :
    Outcome S w (IsUserSigned S w) ((createToken S token amount tokenMeta units).exec w).2 := by
  refine .ensureAuthenticated .refl (.secretValue .refl fun secret hsecret => .getBundle .refl fun bundle hbundle => ?_)
  refine .userSource hsecret fun source t hasked hsource => .get ?_
  have hclient : t.client = w.client := (quiet_of_asked hasked).client
  refine .bind (moves_newWallet _ _ _ _ _) (quiet_of_asked hasked) fun recipient u _ htu hu => ?_
  refine .bind (moves_newWallet _ _ _ _ _) hu fun remainder v hremainder _ hv => ?_
  rw [hclient] at hremainder
  refine .ofExcept hv fun supply _ => .ofExcept hv fun unitMeta _ => ?_
  refine .bind ?_ hv fun batchId x _ hvx hx => ?_
  · split
    · exact moves_randomHex
    · exact Act.Moves.pure _
  rw [← Act.bind_assoc]
  exact .map (outcome_userSigned hsecret hbundle (hasked.trans htu) hsource hremainder hvx rfl rfl)

theorem outcome_createWallet (token : ByteString) :
    Outcome S w (IsUserSigned S w) ((createWallet S token).exec w).2 := by
  refine .ensureAuthenticated .refl (.secretValue .refl fun secret hsecret => .getBundle .refl fun bundle hbundle => ?_)
  refine .get (.userSource hsecret fun source t hasked hsource => ?_)
  refine .bind (moves_newWallet _ _ _ _ _) (quiet_of_asked hasked) fun wallet u _ htu hu => ?_
  refine .bind (moves_newWallet _ _ _ _ _) hu fun remainder v hremainder _ hv => ?_
  exact outcome_userSigned hsecret hbundle (hasked.trans htu) hsource hremainder .refl rfl rfl

theorem outcome_createMeta (metaType metaId : ByteString) (metas : Metas) :
    Outcome S w (IsUserSigned S w) ((createMeta S metaType metaId metas).exec w).2 := by
  refine .ensureAuthenticated .refl (.secretValue .refl fun secret hsecret => .getBundle .refl fun bundle hbundle => ?_)
  refine .get (.userSource hsecret fun source t hasked hsource => ?_)
  refine .bind (moves_newWallet _ _ _ _ _) (quiet_of_asked hasked) fun remainder u hremainder _ hu => ?_
  exact outcome_userSigned hsecret hbundle hasked hsource hremainder .refl rfl rfl

theorem outcome_claimShadowWallet (token batchId : ByteString) :
    Outcome S w (IsUserSigned S w) ((claimShadowWallet S token batchId).exec w).2 := by
  refine .ensureAuthenticated .refl (.secretValue .refl fun secret hsecret => .getBundle .refl fun bundle hbundle => ?_)
  refine .get (.userSource hsecret fun source t hasked hsource => ?_)
  refine .bind (moves_newWallet _ _ _ _ _) (quiet_of_asked hasked) fun claimWallet u _ htu hu => ?_
  refine .bind (moves_newWallet _ _ _ _ _) hu fun remainder v hremainder _ hv => ?_
  exact outcome_userSigned hsecret hbundle (hasked.trans htu) hsource hremainder .refl rfl rfl

theorem outcome_replenishToken (token : ByteString) (amount : BinaryFloat.Value) (units : List ByteString) :
    Outcome S w (IsUserSigned S w) ((replenishToken S token amount units).exec w).2 := by
  refine .ensureAuthenticated .refl (.secretValue .refl fun secret hsecret => .get (.ofExcept .refl fun amountLL _ => ?_))
  refine .require .refl fun _ => .require .refl fun _ => .getBundle .refl fun bundle hbundle => ?_
  refine .userSource hsecret fun source t hasked hsource => ?_
  refine .bind (moves_newWallet _ _ _ _ _) (quiet_of_asked hasked) fun remainder u hremainder _ hu => ?_
  refine .bind (moves_resolveTokenWallet _ _ _) hu fun existing v _ huv hv => ?_
  refine .bind (moves_creditedWallet _ _ _ _) hv fun credited x _ hvx hx => ?_
  exact outcome_userSigned hsecret hbundle hasked hsource hremainder (huv.trans hvx) rfl rfl

end UserOperations

section ValueOperations

/-- The signer of a value operation: the wallet of the row that the reply names, up to what the operation
sets on it. -/
structure RowSource (S : Setting E) (w : World E) (secret : Secret) (token : ByteString) (mlKemParameterSet : Int)
    (info : TokenWalletInfo) (source : Wallet) : Prop where
  found : info.found = true
  ledger : ∃ version ledger,
    w.client.bindOwnWalletOtsVersion S.hash token info.position info.address = .ok version ∧
      Wallet.new S.hash S.kem secret.bytes token info.position mlKemParameterSet version = .ok ledger ∧
      source = { ledger with balance := source.balance, batchId := source.batchId, tokenUnits := source.tokenUnits }

/-- What a value operation sends: a molecule signed by the caller's wallet, or by the wallet of a row of the
reply to its own Balance query. -/
structure ValueSigned (S : Setting E) (given : Option Wallet) (w t : World E) (secret : Secret) (cellSlug : ByteString)
    (source remainder : Wallet) (b : Molecule.Builder) (m : Molecule) : Prop where
  secret_eq : w.client.secret = some secret
  asked : given = some source ∨ ∃ bundle token buffer mlKemParameterSet,
    w.client.bundle = some bundle ∧ Quiet S (w.asked S (.balance bundle token buffer)) t ∧
      RowSource S w secret token mlKemParameterSet
        ((S.serve (.balance bundle token buffer) w.env).1.tokenWallet S.floatText) source
  source_eq : b.source = source
  signed : SignedBy S.hash cellSlug source remainder b secret m
  checked : Molecule.check S.hash m = .ok ()

def IsValueSigned (S : Setting E) (given : Option Wallet) (w t : World E) (secret : Secret) (m : Molecule) : Prop :=
  ∃ cellSlug source remainder b, ValueSigned S given w t secret cellSlug source remainder b m

variable {secret : Secret} {bundle token cellSlug : ByteString} {buffer : Bool} {mlKemParameterSet : Int}

theorem quiet_of_balance (h : Quiet S (w.asked S (.balance bundle token buffer)) t) : Quiet S w t :=
  (Quiet.ask (.balance bundle token buffer) rfl .refl).trans h

/-- The beginning of a value operation: the Balance query, whose row must be spendable. -/
theorem Outcome.row {β : Type} {P : World E → Secret → Molecule → Prop} {e : Exception} {f : TokenWalletInfo → Run E β}
    (hf : ∀ info, info.found = true →
      info = (S.serve (.balance bundle token buffer) w.env).1.tokenWallet S.floatText →
        Outcome S w P ((f info).exec (w.asked S (.balance bundle token buffer))).2) :
    Outcome S w P ((do
      let src ← resolveTokenWallet S bundle token buffer
      Act.require src.found e
      f src : Run E β).exec w).2 := by
  refine .bind (moves_resolveTokenWallet _ _ _) .refl fun info t h _ ht => .require ht fun hfound => ?_
  obtain ⟨rfl, hinfo⟩ := resolveTokenWallet_ok h
  exact hf info hfound hinfo

/-- The wallet of the row. -/
theorem Outcome.ledger {β : Type} {P : World E → Secret → Molecule → Prop} {info : TokenWalletInfo} {f : Wallet → Run E β}
    (hfound : info.found = true)
    (hinfo : info = (S.serve (.balance bundle token buffer) w.env).1.tokenWallet S.floatText)
    (hf : ∀ ledger, RowSource S w secret token mlKemParameterSet info ledger →
      Outcome S w P ((f ledger).exec (w.asked S (.balance bundle token buffer))).2) :
    Outcome S w P ((ledgerWallet S secret token mlKemParameterSet info >>= f).exec
      (w.asked S (.balance bundle token buffer))).2 := by
  refine .bind (moves_ledgerWallet _ _ _ _) (quiet_of_balance .refl) fun ledger t h _ _ => ?_
  have hposition : info.position ≠ [] := by
    rw [hinfo] at hfound ⊢
    exact Reply.tokenWallet_position _ _ hfound
  obtain ⟨rfl, version, hbind, hnew⟩ := ledgerWallet_ok hposition h
  exact hf ledger ⟨hfound, version, ledger, hbind, hnew, rfl⟩

/-- What the operation sets on the wallet of a row does not change where it stands. -/
theorem RowSource.set {info : TokenWalletInfo} {ledger : Wallet}
    (h : RowSource S w secret token mlKemParameterSet info ledger) {balance batchId : ByteString}
    {tokenUnits : List TokenUnit} {source : Wallet} (hsource : source = { ledger with balance, batchId, tokenUnits }) :
    RowSource S w secret token mlKemParameterSet info source := by
  obtain ⟨hfound, version, wallet, hbind, hnew, heq⟩ := h
  exact ⟨hfound, version, wallet, hbind, hnew, by rw [hsource, heq]⟩

theorem outcome_valueSigned {given : Option Wallet} {source remainder : Wallet} {b : Molecule.Builder}
    (hsecret : w.client.secret = some secret) (ht : Quiet S w t)
    (hasked : given = some source ∨ ∃ bundle token buffer mlKemParameterSet,
      w.client.bundle = some bundle ∧ Quiet S (w.asked S (.balance bundle token buffer)) t ∧
        RowSource S w secret token mlKemParameterSet
          ((S.serve (.balance bundle token buffer) w.env).1.tokenWallet S.floatText) source)
    (hb : b.source = source) :
    Outcome S w (IsValueSigned S given w)
      ((assemble S cellSlug source remainder b >>= fun m => submitMolecule S m).exec t).2 := by
  refine outcome_assemble ht fun secret' m hheld hsigned hcheck => ?_
  obtain rfl : secret' = secret := by
    rw [ht.client, hsecret] at hheld
    exact (Option.some.inj hheld).symm
  exact ⟨cellSlug, source, remainder, b, hsecret, hasked, hb, hsigned, hcheck⟩

theorem outcome_depositBufferToken (token : ByteString) (amount : BinaryFloat.Value) (tradeRates : Metas) :
    Outcome S w (IsValueSigned S none w) ((depositBufferToken S token amount tradeRates).exec w).2 := by
  refine .ensureAuthenticated .refl (.secretValue .refl fun secret hsecret => .getBundle .refl fun bundle hbundle => ?_)
  refine .row fun info hfound hinfo => .ofExcept (quiet_of_balance .refl) fun amountLL _ => ?_
  refine .require (quiet_of_balance .refl) fun _ => .get (.ledger hfound hinfo fun ledger hrow => ?_)
  refine .bind (moves_newWallet _ _ _ _ _) (quiet_of_balance .refl) fun buffer t _ hat ht => ?_
  refine .bind (moves_newWallet _ _ _ _ _) ht fun remainder u _ htu hu => ?_
  rw [hinfo] at hrow
  exact outcome_valueSigned hsecret hu
    (.inr ⟨bundle, token, false, 1024, hbundle, hat.trans htu, hrow.set rfl⟩) rfl

theorem outcome_transferToken (bundleHash token : ByteString) (amount : BinaryFloat.Value) (batchId : ByteString)
    (units : List ByteString) :
    Outcome S w (IsValueSigned S none w) ((transferToken S bundleHash token amount batchId units).exec w).2 := by
  refine .ensureAuthenticated .refl (.secretValue .refl fun secret hsecret => .getBundle .refl fun bundle hbundle => ?_)
  refine .row fun info hfound hinfo => .ofExcept (quiet_of_balance .refl) fun amountLL _ => ?_
  refine .require (quiet_of_balance .refl) fun _ => .get (.ledger hfound hinfo fun ledger hrow => ?_)
  refine .bind (moves_newWallet _ _ _ _ _) (quiet_of_balance .refl) fun drawn t _ hat ht => ?_
  refine .bind (moves_newWallet _ _ _ _ _) ht fun fresh u _ htu hu => ?_
  rw [hinfo] at hrow
  obtain ⟨sent, hsplit⟩ := Wallet.splitUnits_source (info.fund ledger)
    units fresh (some (shadowOf drawn bundleHash batchId))
  exact outcome_valueSigned hsecret hu (.inr ⟨bundle, token, false, 1024, hbundle, hat.trans htu, hrow.set hsplit⟩) rfl

theorem outcome_transferTokens (token : ByteString) (recipients : List TransferRecipient) :
    Outcome S w (IsValueSigned S none w) ((transferTokens S token recipients).exec w).2 := by
  refine .ensureAuthenticated .refl (.secretValue .refl fun secret hsecret => .getBundle .refl fun bundle hbundle => ?_)
  refine .ofExcept .refl fun (amounts, total) _ => .row fun info hfound hinfo => ?_
  refine .require (quiet_of_balance .refl) fun _ => .get (.ledger hfound hinfo fun ledger hrow => ?_)
  refine .bind (moves_recipientShadows _ _ _) (quiet_of_balance .refl) fun shadows t _ hat ht => ?_
  refine .bind (moves_newWallet _ _ _ _ _) ht fun fresh u _ htu hu => ?_
  rw [hinfo] at hrow
  obtain ⟨sent, hsplit⟩ := Wallet.splitUnitsMulti_source
    (info.fund ledger) (recipients.map (·.units)) shadows fresh
  exact outcome_valueSigned hsecret hu (.inr ⟨bundle, token, false, 1024, hbundle, hat.trans htu, hrow.set hsplit⟩) rfl

theorem outcome_burnToken (token : ByteString) (amount : BinaryFloat.Value) (units : List ByteString) :
    Outcome S w (IsValueSigned S none w) ((burnToken S token amount units).exec w).2 := by
  refine .ensureAuthenticated .refl (.secretValue .refl fun secret hsecret => .getBundle .refl fun bundle hbundle => ?_)
  refine .row fun info hfound hinfo => .ofExcept (quiet_of_balance .refl) fun amountLL _ => ?_
  refine .require (quiet_of_balance .refl) fun _ => .get (.ledger hfound hinfo fun ledger hrow => ?_)
  refine .bind (moves_newWallet _ _ _ _ _) (quiet_of_balance .refl) fun drawn t _ hat ht => ?_
  refine .bind (moves_newWallet _ _ _ _ _) ht fun fresh u _ htu hu => ?_
  rw [hinfo] at hrow
  obtain ⟨sent, hsplit⟩ := Wallet.splitUnits_source (info.fund ledger)
    units fresh none
  exact outcome_valueSigned hsecret hu (.inr ⟨bundle, token, false, 1024, hbundle, hat.trans htu, hrow.set hsplit⟩) rfl

/-- The rest of a withdrawal, from its source wallet on. -/
theorem outcome_withdrawFrom {given : Option Wallet} {senderBundle token : ByteString} {amount : BinaryFloat.Value}
    {config : Config} {source : Wallet} (hsecret : w.client.secret = some secret) (ht : Quiet S w t)
    (hasked : ∀ u, Quiet S t u → given = some source ∨ ∃ bundle token buffer mlKemParameterSet,
      w.client.bundle = some bundle ∧ Quiet S (w.asked S (.balance bundle token buffer)) u ∧
        RowSource S w secret token mlKemParameterSet
          ((S.serve (.balance bundle token buffer) w.env).1.tokenWallet S.floatText) source) :
    Outcome S w (IsValueSigned S given w) ((withdrawFrom S secret senderBundle token amount config source).exec t).2 := by
  refine .ofExcept ht fun amountLL _ => .require ht fun _ => ?_
  refine .bind (moves_newWallet _ _ _ _ _) ht fun drawn u _ htu hu => ?_
  refine .bind ?_ hu fun batchId v _ huv hv => ?_
  · split
    · exact Act.Moves.pure _
    · exact moves_randomHex
  refine .bind (moves_newWallet _ _ _ _ _) hv fun fresh x _ hvx hx => ?_
  exact outcome_valueSigned hsecret hx (hasked x ((htu.trans huv).trans hvx)) rfl

theorem outcome_withdrawBufferToken (token : ByteString) (amount : BinaryFloat.Value) (sourceWallet : Option Wallet) :
    Outcome S w (IsValueSigned S sourceWallet w) ((withdrawBufferToken S token amount sourceWallet).exec w).2 := by
  refine .ensureAuthenticated .refl (.secretValue .refl fun secret hsecret => .getBundle .refl fun bundle hbundle => ?_)
  refine .get ?_
  cases sourceWallet with
  | some given => exact outcome_withdrawFrom hsecret .refl fun _ _ => .inl rfl
  | none =>
    simp only [bufferSource, Act.bind_assoc]
    refine .row fun info hfound hinfo => .ledger hfound hinfo fun ledger hrow => ?_
    rw [hinfo] at hrow
    exact outcome_withdrawFrom hsecret (quiet_of_balance .refl) fun u hu =>
      .inr ⟨bundle, token, true, _, hbundle, hu, hrow.set rfl⟩

theorem outcome_fuseToken (bundleHash tokenSlug newTokenUnitId : ByteString) (fusedTokenUnitIds : List ByteString) :
    Outcome S w (IsValueSigned S none w)
      ((fuseToken S bundleHash tokenSlug newTokenUnitId fusedTokenUnitIds).exec w).2 := by
  refine .ensureAuthenticated .refl (.secretValue .refl fun secret hsecret => .getBundle .refl fun bundle hbundle => ?_)
  refine .get (.row fun info hfound hinfo => .ledger hfound hinfo fun ledger hrow => ?_)
  refine .bind (moves_newWallet _ _ _ _ _) (quiet_of_balance .refl) fun own t _ hat ht => ?_
  refine .bind (moves_newWallet _ _ _ _ _) ht fun remainder u _ htu hu => ?_
  refine .bind (moves_fusionBatchIds _) hu fun drawn v _ huv hv => ?_
  rw [hinfo] at hrow
  exact outcome_valueSigned hsecret hv
    (.inr ⟨bundle, tokenSlug, false, _, hbundle, (hat.trans htu).trans huv, hrow.set rfl⟩) rfl

end ValueOperations

end KnishIO
