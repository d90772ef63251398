import KnishIO.Client.LoginProtocol

open ByteString

namespace KnishIO

/-- The operations that sign at the head of the USER chain. -/
inductive UserOp where
  | createToken (token : ByteString) (amount : BinaryFloat.Value) (tokenMeta : Metas) (units : List ByteString)
  | createWallet (token : ByteString)
  | createMeta (metaType metaId : ByteString) («meta» : Metas)
  | claimShadowWallet (token batchId : ByteString)
  | replenishToken (token : ByteString) (amount : BinaryFloat.Value) (units : List ByteString)

def UserOp.run {E : Type} (S : Setting E) : UserOp → Run E Response
  | .createToken token amount tokenMeta units => KnishIO.createToken S token amount tokenMeta units
  | .createWallet token => KnishIO.createWallet S token
  | .createMeta metaType metaId metas => KnishIO.createMeta S metaType metaId metas
  | .claimShadowWallet token batchId => KnishIO.claimShadowWallet S token batchId
  | .replenishToken token amount units => KnishIO.replenishToken S token amount units

/-- The arguments are UTF-8, and the amounts are ones that the operation takes. -/
def UserOp.Writable : UserOp → Prop
  | .createToken token amount tokenMeta units =>
    Utf8.valid token = true ∧ (∃ supply, toLongLong amount = .ok supply) ∧
      (∀ m ∈ tokenMeta, Utf8.valid m.1 = true ∧ Utf8.valid m.2 = true) ∧ ∀ u ∈ units, Utf8.valid u = true
  | .createWallet token => Utf8.valid token = true
  | .createMeta metaType metaId metas =>
    Utf8.valid metaType = true ∧ Utf8.valid metaId = true ∧ ∀ m ∈ metas, Utf8.valid m.1 = true ∧ Utf8.valid m.2 = true
  | .claimShadowWallet token batchId => Utf8.valid token = true ∧ Utf8.valid batchId = true
  | .replenishToken token amount units =>
    Utf8.valid token = true ∧ (∀ u ∈ units, Utf8.valid u = true) ∧
      ∃ n, toLongLong amount = .ok n ∧ (units = [] → 0 < n) ∧ (units ≠ [] → n = 0 ∨ n = units.length)

/-- A client that can make wallets and send molecules in the clear. -/
structure World.Ready {E : Type} (S : Setting E) (w : World E) (secret : Secret) (bundle : ByteString) : Prop
    extends w.Equipped S where
  authenticated : w.client.isAuthenticated = true
  secret_eq : w.client.secret = some secret
  bundle_eq : w.client.bundle = some bundle
  plain : w.client.transport.cipherEnabled = false
  cellSlug : Utf8.valid (w.client.config.cellSlug.getD []) = true

section Built

variable {H : Shake256} {K : MlKem} {secret : Secret} {source remainder wallet : Wallet}

/-- The strings of a wallet that its metas carry are UTF-8. -/
structure Wallet.Encoded (wallet : Wallet) : Prop where
  token : Utf8.valid wallet.token = true
  position : Utf8.valid wallet.position = true
  address : Utf8.valid wallet.address = true
  bundle : Utf8.valid wallet.bundle = true
  batchId : Utf8.valid wallet.batchId = true

theorem utf8_shake256Hex (H : Shake256) (s : ByteString) (bits : Nat) : Utf8.valid (shake256Hex H s bits) = true :=
  Utf8.valid_of_ascii fun _ hc => Molecule.isHexLower_ascii (isHexLower_shake256Hex hc)

theorem Wallet.encoded_new {token position : ByteString} {mlkemParameterSet otsVersion : Int}
    (h : Wallet.new H K secret.bytes token position mlkemParameterSet otsVersion = .ok wallet)
    (htoken : Utf8.valid token = true) (hposition : Utf8.valid position = true) : wallet.Encoded := by
  obtain ⟨key, mlkemPublicKey, -, -, rfl⟩ := Wallet.new_ok h
  exact ⟨htoken, hposition, utf8_shake256Hex _ _ _, utf8_shake256Hex _ _ _, rfl⟩

theorem utf8_toBase64 (data : ByteString) : Utf8.valid (toBase64 data) = true :=
  Utf8.valid_of_ascii fun _ hc => ascii_of_mem_toBase64 hc

/-- A pair that stands in the metas or not. -/
theorem utf8_optional (c : Prop) [Decidable c] {key value : ByteString} (hkey : Utf8.valid key = true)
    (hvalue : Utf8.valid value = true) :
    ∀ m ∈ (if c then [] else [(key, value)] : Metas), Utf8.valid m.1 = true ∧ Utf8.valid m.2 = true := by
  split_ifs
  · simp
  · simpa using ⟨hkey, hvalue⟩

theorem Wallet.Encoded.utf8_buildWalletMetaKeys (h : wallet.Encoded) :
    ∀ m ∈ Molecule.buildWalletMetaKeys wallet, Utf8.valid m.1 = true ∧ Utf8.valid m.2 = true := by
  simp only [Molecule.buildWalletMetaKeys, List.forall_mem_append, List.forall_mem_cons, List.not_mem_nil, false_implies,
    implies_true, and_true]
  exact ⟨⟨⟨⟨⟨by decide, h.token⟩, ⟨by decide, h.bundle⟩, ⟨by decide, h.address⟩, by decide, h.position⟩,
    utf8_optional _ (by decide) h.batchId⟩, utf8_optional _ (by decide) (utf8_toBase64 _)⟩, by decide, by decide⟩

theorem Wallet.Encoded.utf8_replenishMeta (h : wallet.Encoded) {tokenUnits : Metas}
    (htokenUnits : ∀ m ∈ tokenUnits, Utf8.valid m.1 = true ∧ Utf8.valid m.2 = true) :
    ∀ m ∈ Molecule.replenishMeta wallet tokenUnits, Utf8.valid m.1 = true ∧ Utf8.valid m.2 = true := by
  simp only [Molecule.replenishMeta, List.forall_mem_append, List.forall_mem_cons, List.not_mem_nil, false_implies,
    implies_true, and_true]
  exact ⟨⟨⟨⟨⟨by decide, by decide⟩, ⟨by decide, h.address⟩, by decide, h.position⟩,
    utf8_optional _ (by decide) (utf8_toBase64 _)⟩, utf8_optional _ (by decide) h.batchId⟩, htokenUnits⟩

/-- The text of a document of UTF-8 strings. -/
theorem utf8_dumpJson {F : Json.FloatText} {j : Json} (hj : j.Valid F) : ∃ text, dumpJson j = .ok text ∧ Utf8.valid text = true :=
  ⟨j.text, by rw [dumpJson, Json.dump_of_utf8 (Json.Valid.utf8 j hj)], Json.valid_text j hj⟩

/-- The text of a list of units that have nothing but their ids. -/
theorem utf8_idUnits (F : Json.FloatText) {units : List ByteString} (hunits : ∀ u ∈ units, Utf8.valid u = true) :
    ∃ text, dumpJson (.arr (units.map fun u => .arr [.str u, .str u, .obj []])) = .ok text ∧ Utf8.valid text = true := by
  refine utf8_dumpJson (F := F) (Json.valid_arr fun j hj => ?_)
  obtain ⟨u, hu, rfl⟩ := List.mem_map.mp hj
  exact ⟨hunits u hu, hunits u hu, ⟨List.Pairwise.nil, trivial⟩, trivial⟩

theorem unitsMeta_ids (F : Json.FloatText) {units : List ByteString} (hunits : ∀ u ∈ units, Utf8.valid u = true) :
    ∃ metas, Molecule.unitsMeta (units.map fun id => { id, name := id }) = .ok metas ∧
      ∀ m ∈ metas, Utf8.valid m.1 = true ∧ Utf8.valid m.2 = true := by
  obtain ⟨text, htext, hutf8⟩ := utf8_idUnits F hunits
  rw [Molecule.unitsMeta]
  split_ifs
  · exact ⟨[], rfl, by simp⟩
  · have htriples : (units.map fun id : ByteString => ({ id, name := id } : TokenUnit)).map Wallet.unitTriple =
        units.map fun u => .arr [.str u, .str u, .obj []] := List.map_map
    rw [Wallet.unitsJson, htriples, htext]
    exact ⟨_, rfl, by simpa using ⟨by decide, hutf8⟩⟩

theorem stackableMeta_ok (F : Json.FloatText) {units : List ByteString} (hunits : ∀ u ∈ units, Utf8.valid u = true) :
    ∃ metas, stackableMeta units = .ok metas ∧ ∀ m ∈ metas, Utf8.valid m.1 = true ∧ Utf8.valid m.2 = true := by
  obtain ⟨text, htext, hutf8⟩ := utf8_idUnits F hunits
  rw [stackableMeta, htext]
  exact ⟨_, rfl, by simpa using ⟨by decide, by decide, by decide, hutf8⟩⟩

theorem run_initTokenCreation (cellSlug : ByteString) (clock : Nat → Int64) (amount : ByteString) (tokenMeta : Metas) :
    ((Molecule.Builder.initTokenCreation source wallet amount tokenMeta).run clock).run
        (Molecule.withWallets cellSlug (clock 0) source remainder) =
      .ok ((openingMolecule "C" cellSlug clock source remainder amount [] (ascii "token") wallet.token
          (tokenMeta ++ Molecule.buildWalletMetaKeys wallet)).atoms,
        openingMolecule "C" cellSlug clock source remainder amount [] (ascii "token") wallet.token
          (tokenMeta ++ Molecule.buildWalletMetaKeys wallet)) := by
  rw [Act.run_eq_ok]
  rfl

theorem run_initWalletCreation (cellSlug : ByteString) (clock : Nat → Int64) (atomMeta : Metas) :
    ((Molecule.Builder.initWalletCreation source wallet atomMeta).run clock).run
        (Molecule.withWallets cellSlug (clock 0) source remainder) =
      .ok ((openingMolecule "C" cellSlug clock source remainder [] [] (ascii "wallet") wallet.address
          (atomMeta ++ Molecule.buildWalletMetaKeys wallet)).atoms,
        openingMolecule "C" cellSlug clock source remainder [] [] (ascii "wallet") wallet.address
          (atomMeta ++ Molecule.buildWalletMetaKeys wallet)) := by
  rw [Act.run_eq_ok]
  rfl

theorem run_initTokenReplenish (cellSlug : ByteString) (clock : Nat → Int64) (amount : ByteString) {units : List TokenUnit}
    {tokenUnits : Metas} (hunits : Molecule.unitsMeta units = .ok tokenUnits) :
    ((Molecule.Builder.initTokenReplenish source wallet amount units).run clock).run
        (Molecule.withWallets cellSlug (clock 0) source remainder) =
      .ok ((openingMolecule "C" cellSlug clock source remainder (if units = [] then amount else Decimal.ofNat units.length)
          wallet.batchId (ascii "token") wallet.token (Molecule.replenishMeta wallet tokenUnits)).atoms,
        openingMolecule "C" cellSlug clock source remainder (if units = [] then amount else Decimal.ofNat units.length)
          wallet.batchId (ascii "token") wallet.token (Molecule.replenishMeta wallet tokenUnits)) := by
  rw [Act.run_eq_ok]
  simp only [Molecule.Builder.run, Molecule.initTokenReplenish, Act.exec_bind, hunits]
  rfl

end Built

section Told

variable {F : Json.FloatText} {reply : Reply} {client : Client} {secret : Secret}

theorem Reply.valid_row {key : String} {row : Json} (h : reply.row F key = some row) : row.Valid F := by
  rw [Reply.row] at h
  split_ifs at h
  cases hbody : Json.parse F reply.body with
  | none => simp [hbody] at h
  | some body =>
    simp only [hbody, Option.bind_eq_some_iff] at h
    obtain ⟨found, ⟨data, hdata, hfound⟩, hobject⟩ := h
    split_ifs at hobject
    obtain rfl := Option.some.inj hobject
    exact Json.valid_of_find? (Json.valid_of_find? (Json.parse_valid hbody) hdata) hfound

theorem Reply.utf8_pointer (F : Json.FloatText) (reply : Reply) : Utf8.valid (reply.pointer F).1 = true := by
  rw [Reply.pointer]
  cases hrow : reply.row F "ContinuId" with
  | none => rfl
  | some cid =>
    dsimp only
    split_ifs
    · exact valid_stringAt (Reply.valid_row hrow) "position"
    · rfl

theorem Reply.utf8_tokenWallet (F : Json.FloatText) (reply : Reply) :
    Utf8.valid (reply.tokenWallet F).position = true ∧ Utf8.valid (reply.tokenWallet F).address = true ∧
      Utf8.valid (reply.tokenWallet F).batchId = true := by
  rw [Reply.tokenWallet]
  cases hrow : reply.row F "Balance" with
  | none => exact ⟨rfl, rfl, rfl⟩
  | some bal =>
    have hvalid := Reply.valid_row hrow
    exact ⟨valid_stringAt hvalid "position", valid_stringAt hvalid "address", valid_stringAt hvalid "batchId"⟩

theorem Client.bindOwnWalletOtsVersion_checked {H : Shake256} {token position address : ByteString} {version : Int}
    (hsecret : client.secret = some secret) (h : client.bindOwnWalletOtsVersion H token position address = .ok version) :
    version = 1 ∨ version = 2 := by
  by_cases hempty : position = [] ∨ address = []
  · rw [Client.bindOwnWalletOtsVersion, if_pos hempty] at h
    exact Except.ok.inj h ▸ client.config.otsVersion_checked
  · obtain ⟨hposition, haddress⟩ := not_or.mp hempty
    exact (((Client.bindOwnWalletOtsVersion_detects H token hsecret hposition haddress).2 version).mp h).1.inv.1

end Told

section Sent

variable {E : Type} {S : Setting E} {w u : World E} {secret : Secret} {bundle token : ByteString} {source remainder : Wallet}

theorem World.Equipped.draws (h : w.Equipped S) (u : World E) (secret : Secret) (token : ByteString)
    {mlKemParameterSet version : Int} (hset : mlKemParameterSet = 768 ∨ mlKemParameterSet = 1024)
    (hversion : version = 1 ∨ version = 2) :
    ∃ wallet, (newWallet S secret token [] mlKemParameterSet version).exec u = (.ok wallet, { u with drawn := u.drawn + 1 }) ∧
      Wallet.new S.hash S.kem secret.bytes token (S.draw u.drawn).bytes mlKemParameterSet version = .ok wallet := by
  obtain ⟨wallet, hwallet⟩ := Wallet.new_exists (H := S.hash) h.kem token secret.nonempty (S.draw u.drawn).ne_nil hset hversion
  exact ⟨wallet, exec_newWallet_drawn hwallet, hwallet⟩

/-- The source of the operation, unless the client refuses the pointer. -/
theorem World.Ready.finds (h : w.Ready S secret bundle) {mlKemParameterSet : Int}
    (hset : mlKemParameterSet = 768 ∨ mlKemParameterSet = 1024)
    (hbind : ∀ e, w.client.bindOwnWalletOtsVersion S.hash (ascii "USER")
      ((S.serve (.continuId bundle) w.env).1.pointer S.floatText).1
      ((S.serve (.continuId bundle) w.env).1.pointer S.floatText).2 ≠ .error e) :
    ∃ source k p v,
      (continuIdSourceWallet S bundle mlKemParameterSet).exec w =
        (.ok source, { w.asked S (.continuId bundle) with drawn := k }) ∧
      w.drawn ≤ k ∧ source.Made S.hash secret.bytes (ascii "USER") p v ∧ Utf8.valid p = true ∧ (v = 1 ∨ v = 2) := by
  by_cases hpointer : ((S.serve (.continuId bundle) w.env).1.pointer S.floatText).1 = []
  · have hversion := w.client.config.otsVersion_checked
    obtain ⟨source, -, hsource⟩ := h.toEquipped.draws w secret (ascii "USER") hset hversion
    exact ⟨source, w.drawn + 1, _, _, exec_continuIdSourceWallet_fresh h.secret_eq hpointer hsource, Nat.le_succ _,
      Wallet.made_new hsource, utf8_randomHex _, hversion⟩
  · cases hfound : w.client.bindOwnWalletOtsVersion S.hash (ascii "USER")
      ((S.serve (.continuId bundle) w.env).1.pointer S.floatText).1
      ((S.serve (.continuId bundle) w.env).1.pointer S.floatText).2 with
    | error e => exact absurd hfound (hbind e)
    | ok version =>
      have hversion := Client.bindOwnWalletOtsVersion_checked h.secret_eq hfound
      obtain ⟨source, hsource⟩ := Wallet.new_exists (H := S.hash) h.kem (ascii "USER") secret.nonempty hpointer hset hversion
      exact ⟨source, w.drawn, _, _, exec_continuIdSourceWallet_at h.secret_eq rfl hpointer hfound hsource, le_rfl,
        Wallet.made_new hsource, Reply.utf8_pointer _ _, hversion⟩

/-- The end of the operation, between two wallets of the secret. -/
theorem World.Ready.submits (h : w.Ready S secret bundle) (hclient : u.client = w.client) {p q : ByteString} {v v' : Int}
    (hsource : source.Made S.hash secret.bytes (ascii "USER") p v)
    (hremainder : remainder.Made S.hash secret.bytes (ascii "USER") q v') (hp : Utf8.valid p = true)
    (hq : Utf8.valid q = true) {b : Molecule.Builder} {isotope : String} (hisotope : isotope = "C" ∨ isotope = "M")
    {value batchId metaType metaId : ByteString} {metas : Metas} {atoms : List Atom}
    (hrun : (b.run (S.clock u.drawn)).run
        (Molecule.withWallets (w.client.config.cellSlug.getD []) (S.clock u.drawn 0) source remainder) =
      .ok (atoms, openingMolecule isotope (w.client.config.cellSlug.getD []) (S.clock u.drawn) source remainder value batchId
        metaType metaId metas))
    (hvalue : Utf8.valid value = true) (hbatchId : Utf8.valid batchId = true) (hmetaType : Utf8.valid metaType = true)
    (hmetaId : Utf8.valid metaId = true) (hmetas : ∀ m ∈ metas, Utf8.valid m.1 = true ∧ Utf8.valid m.2 = true) :
    ∃ m, m.WireUtf8 ∧
      ((assemble S (w.client.config.cellSlug.getD []) source remainder b >>= fun m => submitMolecule S m).exec u).2 =
        u.proposed S secret m := by
  have hsubmittable : Submittable S.hash secret (openingMolecule isotope (w.client.config.cellSlug.getD []) (S.clock u.drawn)
      source remainder value batchId metaType metaId metas) := by
    obtain rfl | rfl := hisotope
    · exact submittable_openingMolecule hsource hremainder (by decide) hp hq h.cellSlug (by decide) hvalue hbatchId hmetaType
        hmetaId hmetas _ fun _ hhash => (Molecule.verifyTokenIsotopeV_rehashed (List.cons_ne_nil _ _) rfl hhash).trans rfl
    · exact submittable_openingMolecule hsource hremainder (by decide) hp hq h.cellSlug (by decide) hvalue hbatchId hmetaType
        hmetaId hmetas _ fun _ hhash => (Molecule.verifyTokenIsotopeV_rehashed (List.cons_ne_nil _ _) rfl hhash).trans rfl
  obtain ⟨m, -, hutf8, hsends⟩ := hsubmittable.sends (w := u) (hclient ▸ h.secret_eq) (hclient ▸ h.plain)
  rw [exec_bind_of_ok (exec_assemble hrun)]
  exact ⟨m, hutf8, hsends⟩

/-- The client does not refuse the pointer that it is told. -/
def Accepts (S : Setting E) (w : World E) (bundle : ByteString) : Prop :=
  ∀ e, w.client.bindOwnWalletOtsVersion S.hash (ascii "USER")
    ((S.serve (.continuId bundle) w.env).1.pointer S.floatText).1
    ((S.serve (.continuId bundle) w.env).1.pointer S.floatText).2 ≠ .error e

theorem World.Ready.createWallet_sends (h : w.Ready S secret bundle) (haccepts : Accepts S w bundle)
    (htoken : Utf8.valid token = true) :
    ∃ u m, Quiet S w u ∧ m.WireUtf8 ∧ ((createWallet S token).exec w).2 = u.proposed S secret m := by
  obtain ⟨source, k, p, v, hfind, hk, hsource, hp, hv⟩ := h.finds h.parameterSet haccepts
  have hsuccessor := w.client.config.successorOtsVersion_checked (hsource.otsVersion_eq ▸ hv)
  -- the states after the source is found, after the new wallet and after the remainder
  let found : World E := { w.asked S (.continuId bundle) with drawn := k }
  let made : World E := { found with drawn := k + 1 }
  let ready : World E := { found with drawn := k + 2 }
  obtain ⟨wallet, hwallet, hnew⟩ := h.draws found secret token h.parameterSet w.client.config.otsVersion_checked
  obtain ⟨remainder, hremainder, hdrawn⟩ := h.draws made secret (ascii "USER") h.parameterSet hsuccessor
  have hencoded := Wallet.encoded_new hnew htoken (utf8_randomHex _)
  have hquiet : Quiet S w ready := (Quiet.ask _ rfl .refl).trans (quiet_drawn (show w.drawn ≤ k + 2 by omega))
  obtain ⟨m, hutf8, hsends⟩ := h.submits (u := ready) rfl hsource (Wallet.made_new hdrawn) hp (utf8_randomHex _) (.inl rfl)
    (run_initWalletCreation _ _ []) rfl rfl (by decide) hencoded.address hencoded.utf8_buildWalletMetaKeys
  refine ⟨ready, m, hquiet, hutf8, ?_⟩
  rw [createWallet, exec_bind_of_ok (exec_ensureAuthenticated h.authenticated),
    exec_bind_of_ok (exec_secretValue h.secret_eq), exec_bind_of_ok (exec_getBundle h.bundle_eq),
      exec_bind_of_ok (Act.exec_get _),
    exec_bind_of_ok hfind, exec_bind_of_ok hwallet, exec_bind_of_ok hremainder]
  exact hsends

theorem World.Ready.claimShadowWallet_sends (h : w.Ready S secret bundle) (haccepts : Accepts S w bundle)
    (htoken : Utf8.valid token = true) {batchId : ByteString} (hbatchId : Utf8.valid batchId = true) :
    ∃ u m, Quiet S w u ∧ m.WireUtf8 ∧ ((claimShadowWallet S token batchId).exec w).2 = u.proposed S secret m := by
  obtain ⟨source, k, p, v, hfind, hk, hsource, hp, hv⟩ := h.finds h.parameterSet haccepts
  have hsuccessor := w.client.config.successorOtsVersion_checked (hsource.otsVersion_eq ▸ hv)
  let found : World E := { w.asked S (.continuId bundle) with drawn := k }
  let made : World E := { found with drawn := k + 1 }
  let ready : World E := { found with drawn := k + 2 }
  obtain ⟨wallet, hwallet, hnew⟩ := h.draws found secret token h.parameterSet w.client.config.otsVersion_checked
  obtain ⟨remainder, hremainder, hdrawn⟩ := h.draws made secret (ascii "USER") h.parameterSet hsuccessor
  have hencoded : Wallet.Encoded { wallet with batchId } :=
    { Wallet.encoded_new hnew htoken (utf8_randomHex _) with batchId := hbatchId }
  have hmetas : ∀ m ∈ [(ascii "shadowWalletClaim", ascii "1")] ++ Molecule.buildWalletMetaKeys { wallet with batchId },
      Utf8.valid m.1 = true ∧ Utf8.valid m.2 = true := by
    rw [List.forall_mem_append, List.forall_mem_singleton]
    exact ⟨by decide, hencoded.utf8_buildWalletMetaKeys⟩
  have hquiet : Quiet S w ready := (Quiet.ask _ rfl .refl).trans (quiet_drawn (show w.drawn ≤ k + 2 by omega))
  obtain ⟨m, hutf8, hsends⟩ := h.submits (u := ready) (b := .initShadowWalletClaim source { wallet with batchId }) rfl hsource
    (Wallet.made_new hdrawn) hp (utf8_randomHex _) (.inl rfl) (run_initWalletCreation _ _ _) rfl rfl (by decide)
    hencoded.address hmetas
  refine ⟨ready, m, hquiet, hutf8, ?_⟩
  rw [claimShadowWallet, exec_bind_of_ok (exec_ensureAuthenticated h.authenticated),
    exec_bind_of_ok (exec_secretValue h.secret_eq), exec_bind_of_ok (exec_getBundle h.bundle_eq),
      exec_bind_of_ok (Act.exec_get _),
    exec_bind_of_ok hfind, exec_bind_of_ok hwallet, exec_bind_of_ok hremainder]
  exact hsends

theorem World.Ready.createMeta_sends (h : w.Ready S secret bundle) (haccepts : Accepts S w bundle) {metaType metaId : ByteString}
    {metas : Metas} (hmetaType : Utf8.valid metaType = true) (hmetaId : Utf8.valid metaId = true)
    (hmetas : ∀ m ∈ metas, Utf8.valid m.1 = true ∧ Utf8.valid m.2 = true) :
    ∃ u m, Quiet S w u ∧ m.WireUtf8 ∧ ((createMeta S metaType metaId metas).exec w).2 = u.proposed S secret m := by
  obtain ⟨source, k, p, v, hfind, hk, hsource, hp, hv⟩ := h.finds h.parameterSet haccepts
  have hsuccessor := w.client.config.successorOtsVersion_checked (hsource.otsVersion_eq ▸ hv)
  let found : World E := { w.asked S (.continuId bundle) with drawn := k }
  let ready : World E := { found with drawn := k + 1 }
  obtain ⟨remainder, hremainder, hdrawn⟩ := h.draws found secret (ascii "USER") h.parameterSet hsuccessor
  have hquiet : Quiet S w ready := (Quiet.ask _ rfl .refl).trans (quiet_drawn (show w.drawn ≤ k + 1 by omega))
  obtain ⟨m, hutf8, hsends⟩ := h.submits (u := ready) rfl hsource (Wallet.made_new hdrawn) hp (utf8_randomHex _) (.inr rfl)
    (run_initMeta _ _) rfl rfl hmetaType hmetaId hmetas
  refine ⟨ready, m, hquiet, hutf8, ?_⟩
  rw [createMeta, exec_bind_of_ok (exec_ensureAuthenticated h.authenticated),
    exec_bind_of_ok (exec_secretValue h.secret_eq), exec_bind_of_ok (exec_getBundle h.bundle_eq),
      exec_bind_of_ok (Act.exec_get _),
    exec_bind_of_ok hfind, exec_bind_of_ok hremainder]
  exact hsends

/-- The state does not depend on what is made of the result. -/
theorem exec_map_state {α β : Type} (x : Run E α) (g : α → β) : ((x >>= fun a => pure (g a)).exec w).2 = (x.exec w).2 := by
  rw [Act.exec_bind]
  rcases x.exec w with ⟨_ | _, t⟩
  · rfl
  · rfl

theorem World.Ready.createToken_sends (h : w.Ready S secret bundle) (haccepts : Accepts S w bundle)
    (htoken : Utf8.valid token = true) {amount : BinaryFloat.Value} {supply : Int} (hsupply : toLongLong amount = .ok supply)
    {tokenMeta : Metas} (htokenMeta : ∀ m ∈ tokenMeta, Utf8.valid m.1 = true ∧ Utf8.valid m.2 = true) {units : List ByteString}
    (hunits : ∀ u ∈ units, Utf8.valid u = true) :
    ∃ u m, Quiet S w u ∧ m.WireUtf8 ∧ ((createToken S token amount tokenMeta units).exec w).2 = u.proposed S secret m := by
  have hset : (1024 : Int) = 768 ∨ (1024 : Int) = 1024 := .inr rfl
  obtain ⟨source, k, p, v, hfind, hk, hsource, hp, hv⟩ := h.finds hset haccepts
  have hsuccessor := w.client.config.successorOtsVersion_checked (hsource.otsVersion_eq ▸ hv)
  let found : World E := { w.asked S (.continuId bundle) with drawn := k }
  let made : World E := { found with drawn := k + 1 }
  let ready : World E := { found with drawn := k + 2 }
  obtain ⟨recipient, hrecipient, hnew⟩ := h.draws found secret token hset w.client.config.otsVersion_checked
  obtain ⟨remainder, hremainder, hdrawn⟩ := h.draws made secret (ascii "USER") hset hsuccessor
  have hencoded := Wallet.encoded_new hnew htoken (utf8_randomHex _)
  -- the metas and the batch id of a stackable supply
  obtain ⟨stackable, hstackable⟩ : ∃ stackable, stackable = (units ≠ [] &&
      ((tokenMeta.lookup (ascii "fungibility")).getD [] = ascii "stackable" ||
        (tokenMeta.lookup (ascii "fungibility")).getD [] = ascii "nonfungible" ||
        (tokenMeta.lookup (ascii "fungibility")).getD [] = ascii "non-fungible")) := ⟨_, rfl⟩
  obtain ⟨unitMeta, hunitMeta, hunitUtf8⟩ : ∃ unitMeta, (if stackable then stackableMeta units else .ok []) = .ok unitMeta ∧
      ∀ m ∈ unitMeta, Utf8.valid m.1 = true ∧ Utf8.valid m.2 = true := by
    split_ifs
    · exact stackableMeta_ok S.floatText hunits
    · exact ⟨[], rfl, by simp⟩
  obtain ⟨batchId, j, hbatch, hj, hbatchUtf8⟩ : ∃ batchId j,
      (if stackable && (tokenMeta.lookup (ascii "fungibility")).getD [] = ascii "stackable" then randomHex S
        else pure recipient.batchId : Run E ByteString).exec ready = (.ok batchId, { found with drawn := j }) ∧
      k + 2 ≤ j ∧ Utf8.valid batchId = true := by
    split_ifs
    · exact ⟨_, k + 3, rfl, Nat.le_succ _, utf8_randomHex _⟩
    · exact ⟨_, k + 2, rfl, le_rfl, hencoded.batchId⟩
  have hcredited : Wallet.Encoded { recipient with batchId } := { hencoded with batchId := hbatchUtf8 }
  have hmetas : ∀ m ∈ tokenMeta ++ unitMeta ++ Molecule.buildWalletMetaKeys { recipient with batchId },
      Utf8.valid m.1 = true ∧ Utf8.valid m.2 = true := by
    rw [List.forall_mem_append, List.forall_mem_append]
    exact ⟨⟨htokenMeta, hunitUtf8⟩, hcredited.utf8_buildWalletMetaKeys⟩
  let last : World E := { found with drawn := j }
  have hquiet : Quiet S w last := (Quiet.ask _ rfl .refl).trans (quiet_drawn (show w.drawn ≤ j by omega))
  obtain ⟨m, hutf8, hsends⟩ := h.submits (u := last) rfl hsource (Wallet.made_new hdrawn) hp (utf8_randomHex _) (.inl rfl)
    (run_initTokenCreation _ _ (Decimal.ofInt (if stackable then units.length else supply)) (tokenMeta ++ unitMeta))
    (Atom.utf8_ofInt _) rfl (by decide) hcredited.token hmetas
  refine ⟨last, m, hquiet, hutf8, ?_⟩
  rw [createToken, exec_bind_of_ok (exec_ensureAuthenticated h.authenticated),
    exec_bind_of_ok (exec_secretValue h.secret_eq), exec_bind_of_ok (exec_getBundle h.bundle_eq), exec_bind_of_ok hfind,
    exec_bind_of_ok (Act.exec_get _)]
  refine (congrArg Prod.snd (exec_bind_of_ok hrecipient)).trans ?_
  refine (congrArg Prod.snd (exec_bind_of_ok hremainder)).trans ?_
  rw [exec_bind_of_ok (by rw [Act.exec_ofExcept, hsupply])]
  rw [hstackable] at hunitMeta hbatch hsends
  have hunitStep : (Act.ofExcept (if _ then stackableMeta units else .ok []) : Run E Metas).exec ready = (.ok unitMeta, ready) :=
    congrArg (·, ready) hunitMeta
  refine (congrArg Prod.snd (exec_bind_of_ok hunitStep)).trans ?_
  refine (congrArg Prod.snd (exec_bind_of_ok hbatch)).trans ?_
  rw [← Act.bind_assoc, exec_map_state]
  exact hsends

/-- The row that a replenishment is told. -/
def toldRow (S : Setting E) (w : World E) (bundle token : ByteString) : Reply :=
  (S.serve (.balance bundle token false) (S.serve (.continuId bundle) w.env).2).1

/-- The client does not refuse the wallet of that row. -/
def AcceptsRow (S : Setting E) (w : World E) (bundle token : ByteString) : Prop :=
  ((toldRow S w bundle token).tokenWallet S.floatText).found = true →
    ∀ e, w.client.bindOwnWalletOtsVersion S.hash token ((toldRow S w bundle token).tokenWallet S.floatText).position
      ((toldRow S w bundle token).tokenWallet S.floatText).address ≠ .error e

/-- The wallet that a replenishment credits. -/
theorem World.Ready.credits (h : w.Ready S secret bundle) (haccepts : AcceptsRow S w bundle token)
    (htoken : Utf8.valid token = true) (hclient : u.client = w.client) :
    ∃ credited k, (creditedWallet S secret token w.client.config ((toldRow S w bundle token).tokenWallet S.floatText)).exec u =
      (.ok credited, { u with drawn := k }) ∧ u.drawn ≤ k ∧ credited.Encoded := by
  obtain ⟨hposition, haddress, hbatchId⟩ := Reply.utf8_tokenWallet S.floatText (toldRow S w bundle token)
  rw [creditedWallet]
  split_ifs with hfound
  · have hfilled := Reply.tokenWallet_position S.floatText _ hfound
    cases hbind : w.client.bindOwnWalletOtsVersion S.hash token ((toldRow S w bundle token).tokenWallet S.floatText).position
      ((toldRow S w bundle token).tokenWallet S.floatText).address with
    | error e => exact absurd hbind (haccepts hfound e)
    | ok version =>
      have hversion := Client.bindOwnWalletOtsVersion_checked h.secret_eq hbind
      obtain ⟨ledger, hledger⟩ := Wallet.new_exists (H := S.hash) h.kem token secret.nonempty hfilled h.parameterSet hversion
      have hencoded := Wallet.encoded_new hledger htoken hposition
      rw [exec_bind_of_ok (exec_ledgerWallet hfilled (hclient ▸ hbind) hledger)]
      exact ⟨_, u.drawn, rfl, le_rfl, { hencoded with address := haddress, batchId := hbatchId }⟩
  · obtain ⟨wallet, hwallet, hnew⟩ := h.draws u secret token h.parameterSet w.client.config.otsVersion_checked
    exact ⟨wallet, u.drawn + 1, hwallet, Nat.le_succ _, Wallet.encoded_new hnew htoken (utf8_randomHex _)⟩

theorem utf8_replenishAmount (n : Int) (units : List TokenUnit) :
    Utf8.valid (if units = [] then Decimal.ofInt n else Decimal.ofNat units.length) = true := by
  have hlength : Decimal.ofInt (units.length : Int) = Decimal.ofNat units.length := by simp [Decimal.ofInt]
  split_ifs
  · exact Atom.utf8_ofInt n
  · rw [← hlength]
    exact Atom.utf8_ofInt _

theorem World.Ready.replenishToken_sends (h : w.Ready S secret bundle) (haccepts : Accepts S w bundle)
    (hrow : AcceptsRow S w bundle token) (htoken : Utf8.valid token = true) {amount : BinaryFloat.Value} {n : Int}
    (hamount : toLongLong amount = .ok n) {units : List ByteString} (hpositive : units = [] → 0 < n)
    (hcount : units ≠ [] → n = 0 ∨ n = units.length) (hunits : ∀ u ∈ units, Utf8.valid u = true) :
    ∃ u m, Quiet S w u ∧ m.WireUtf8 ∧ ((replenishToken S token amount units).exec w).2 = u.proposed S secret m := by
  obtain ⟨source, k, p, v, hfind, hk, hsource, hp, hv⟩ := h.finds h.parameterSet haccepts
  have hsuccessor := w.client.config.successorOtsVersion_checked (hsource.otsVersion_eq ▸ hv)
  -- the states after the source is found, after the remainder, and after the row is read
  let found : World E := { w.asked S (.continuId bundle) with drawn := k }
  let made : World E := { found with drawn := k + 1 }
  let told : World E := made.asked S (.balance bundle token false)
  obtain ⟨remainder, hremainder, hdrawn⟩ := h.draws found secret (ascii "USER") h.parameterSet hsuccessor
  have hresolve : (resolveTokenWallet S bundle token).exec made =
      (.ok ((toldRow S w bundle token).tokenWallet S.floatText), told) :=
    exec_resolveTokenWallet (w := made) h.plain bundle token false
  obtain ⟨credited, j, hcredited, hj, hencoded⟩ := h.credits (u := told) hrow htoken rfl
  obtain ⟨tokenUnits, htokenUnits, hunitUtf8⟩ := unitsMeta_ids S.floatText hunits
  let ready : World E := { told with drawn := j }
  have hquiet : Quiet S w ready := by
    have hmade : Quiet S w made := (Quiet.ask _ rfl .refl).trans (quiet_drawn (show w.drawn ≤ k + 1 by omega))
    exact hmade.trans ((Quiet.ask _ rfl .refl).trans (quiet_drawn hj))
  obtain ⟨m, hutf8, hsends⟩ := h.submits (u := ready) rfl hsource (Wallet.made_new hdrawn) hp (utf8_randomHex _) (.inl rfl)
    (run_initTokenReplenish _ _ (Decimal.ofInt n) htokenUnits)
    (utf8_replenishAmount n _) hencoded.batchId (by decide) hencoded.token
    (hencoded.utf8_replenishMeta hunitUtf8)
  refine ⟨ready, m, hquiet, hutf8, ?_⟩
  rw [replenishToken, exec_bind_of_ok (exec_ensureAuthenticated h.authenticated),
    exec_bind_of_ok (exec_secretValue h.secret_eq), exec_bind_of_ok (Act.exec_get _),
    exec_bind_of_ok (by rw [Act.exec_ofExcept, hamount]), exec_bind_of_ok (exec_require_pos hpositive),
    exec_bind_of_ok (exec_require_pos hcount), exec_bind_of_ok (exec_getBundle h.bundle_eq), exec_bind_of_ok hfind,
    exec_bind_of_ok hremainder, exec_bind_of_ok hresolve, exec_bind_of_ok hcredited]
  exact hsends

/-- The token that the operation credits a wallet of. -/
def UserOp.replenished : UserOp → Option ByteString
  | .replenishToken token _ _ => some token
  | _ => none

/-- An operation of such a client, on arguments that it takes, sends a molecule of UTF-8 strings, unless the client
refuses a wallet that it is told. -/
theorem World.Ready.sends (h : w.Ready S secret bundle) {op : UserOp} (hop : op.Writable) (haccepts : Accepts S w bundle)
    (hrow : ∀ token, op.replenished = some token → AcceptsRow S w bundle token) :
    ∃ u m, Quiet S w u ∧ m.WireUtf8 ∧ ((op.run S).exec w).2 = u.proposed S secret m := by
  cases op with
  | createToken token amount tokenMeta units =>
    obtain ⟨htoken, ⟨supply, hsupply⟩, hmetas, hunits⟩ := hop
    exact h.createToken_sends haccepts htoken hsupply hmetas hunits
  | createWallet token => exact h.createWallet_sends haccepts hop
  | createMeta metaType metaId metas =>
    obtain ⟨hmetaType, hmetaId, hmetas⟩ := hop
    exact h.createMeta_sends haccepts hmetaType hmetaId hmetas
  | claimShadowWallet token batchId => exact h.claimShadowWallet_sends haccepts hop.1 hop.2
  | replenishToken token amount units =>
    obtain ⟨htoken, hunits, n, hamount, hpositive, hcount⟩ := hop
    exact h.replenishToken_sends haccepts (hrow token rfl) htoken hamount hpositive hcount hunits

end Sent

end KnishIO
