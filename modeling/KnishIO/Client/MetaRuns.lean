import KnishIO.Client.Login
import KnishIO.Client.Progress

open ByteString

namespace KnishIO

namespace Wallet

variable {H : Shake256} {K : MlKem} {secret token position : ByteString} {mlkemParameterSet otsVersion : Int} {w : Wallet}

/-- What a molecule needs of a wallet of the constructor. -/
structure Made (H : Shake256) (secret token position : ByteString) (otsVersion : Int) (w : Wallet) : Prop where
  token_eq : w.token = token
  position_eq : w.position = position
  otsVersion_eq : w.otsVersion = otsVersion
  address_eq : addressAt H secret token position otsVersion = .ok w.address
  address_hex : ∀ c ∈ w.address, isHexLower c = true
  bundle_eq : w.bundle = generateBundleHash H secret
  no_balance : w.balance = []

theorem made_new (h : new H K secret token position mlkemParameterSet otsVersion = .ok w) :
    w.Made H secret token position otsVersion := by
  obtain ⟨key, mlkemPublicKey, hkey, -, rfl⟩ := new_ok h
  refine ⟨rfl, rfl, rfl, ?_, fun c hc => isHexLower_shake256Hex hc, rfl, rfl⟩
  rw [addressAt, hkey]
  rfl

/-- With a KEM that always returns, only the inputs matter. -/
theorem new_exists (hkem : ∀ set seed, ∃ publicKey, K.publicKey set seed = some publicKey) (token : ByteString)
    (hsecret : secret ≠ []) (hposition : position ≠ []) (hset : mlkemParameterSet = 768 ∨ mlkemParameterSet = 1024)
    (hversion : otsVersion = 1 ∨ otsVersion = 2) :
    ∃ w, new H K secret token position mlkemParameterSet otsVersion = .ok w := by
  obtain ⟨sum, hkey⟩ := generateWalletKey_eq H token hversion hsecret hposition
  obtain ⟨publicKey, hpublicKey⟩ := hkem mlkemParameterSet (shake256 H
    (shake256Hex H (shake256Hex H (keySponge sum token otsVersion) 8192) (if otsVersion = 2 then 32768 else 8192)) 512)
  have hderive : deriveMlKemKeypair H K
      (shake256Hex H (shake256Hex H (keySponge sum token otsVersion) 8192) (if otsVersion = 2 then 32768 else 8192))
      mlkemParameterSet = .ok publicKey := by
    rw [deriveMlKemKeypair, if_neg (by omega), hpublicKey]
  exact ⟨_, by rw [new, checkedOtsVersion_ok hversion]; exact (Throws.bind_of_ok hkey _).trans (Throws.bind_of_ok hderive _)⟩

end Wallet

section Built

variable {H : Shake256} {K : MlKem} {secret : Secret} {source remainder : Wallet} {metaType metaId : ByteString} {metas : Metas}

/-- An unsigned molecule of an atom at the place of the source and a ContinuID atom. -/
def frontMolecule (isotope : String) (cellSlug : ByteString) (clock : Nat → Int64) (source remainder : Wallet) (metas : Metas)
    (metaType metaId : ByteString) : Molecule :=
  { Molecule.withWallets cellSlug (clock 0) source remainder with
    atoms := [Atom.new (clock 0) source.position source.address isotope source.token [] [] metaType metaId metas 0,
      Molecule.continuIdAtom clock source remainder] }

/-- The same, where the front atom has a value and a batch id. -/
def openingMolecule (isotope : String) (cellSlug : ByteString) (clock : Nat → Int64) (source remainder : Wallet)
    (value batchId metaType metaId : ByteString) (metas : Metas) : Molecule :=
  { Molecule.withWallets cellSlug (clock 0) source remainder with
    atoms := [Atom.new (clock 0) source.position source.address isotope source.token value batchId metaType metaId metas 0,
      Molecule.continuIdAtom clock source remainder] }

/-- The unsigned molecule of a metadata operation. -/
def metaMolecule (cellSlug : ByteString) (clock : Nat → Int64) (source remainder : Wallet) (metas : Metas)
    (metaType metaId : ByteString) : Molecule :=
  frontMolecule "M" cellSlug clock source remainder metas metaType metaId

theorem run_initMeta (cellSlug : ByteString) (clock : Nat → Int64) :
    ((Molecule.Builder.initMeta source metas metaType metaId).run clock).run
        (Molecule.withWallets cellSlug (clock 0) source remainder) =
      .ok ((metaMolecule cellSlug clock source remainder metas metaType metaId).atoms,
        metaMolecule cellSlug clock source remainder metas metaType metaId) := by
  rw [Act.run_eq_ok]
  rfl

/-- Between two wallets of the secret, UTF-8 is all that such a molecule needs, unless it moves value. -/
theorem submittable_openingMolecule {isotope : String} {token p q : ByteString} {v v' : Int}
    (hsource : source.Made H secret.bytes token p v) (hremainder : remainder.Made H secret.bytes (ascii "USER") q v')
    (htoken : Utf8.valid token = true) (hp : Utf8.valid p = true) (hq : Utf8.valid q = true)
    {cellSlug value batchId : ByteString} (hcellSlug : Utf8.valid cellSlug = true)
    (hisotope : Utf8.valid (ascii isotope) = true) (hvalue : Utf8.valid value = true) (hbatchId : Utf8.valid batchId = true)
    (hmetaType : Utf8.valid metaType = true) (hmetaId : Utf8.valid metaId = true)
    (hmetas : ∀ m ∈ metas, Utf8.valid m.1 = true ∧ Utf8.valid m.2 = true) (clock : Nat → Int64)
    (hconserved : ∀ hash, hash ≠ [] → Molecule.verifyTokenIsotopeV
      { openingMolecule isotope cellSlug clock source remainder value batchId metaType metaId metas with
        molecularHash := hash } = .ok true) :
    Submittable H secret (openingMolecule isotope cellSlug clock source remainder value batchId metaType metaId metas) where
  nonempty := List.cons_ne_nil _ _
  address := by
    intro front rest hatoms
    obtain ⟨rfl, -⟩ := List.cons.inj hatoms
    have haddress := hsource.address_eq
    rw [← hsource.token_eq, ← hsource.position_eq, ← hsource.otsVersion_eq] at haddress
    exact haddress
  unsigned := by simp [openingMolecule, Molecule.continuIdAtom, Atom.new]
  continuId := by
    rw [Molecule.verifyContinuId]
    simp [openingMolecule, Molecule.continuIdAtom, Atom.new]
  conserved := hconserved
  utf8 := by
    have hhex {s : ByteString} (hs : ∀ c ∈ s, isHexLower c = true) : Utf8.valid s = true :=
      Utf8.valid_of_ascii fun c hc => Molecule.isHexLower_ascii (hs c hc)
    have hbundle : Utf8.valid remainder.bundle = true := by
      rw [hremainder.bundle_eq]
      exact hhex fun c hc => isHexLower_shake256Hex hc
    have huser : Utf8.valid (ascii "USER") = true := by decide
    have hbase64 (data : ByteString) : Utf8.valid (toBase64 data) = true :=
      Utf8.valid_of_ascii fun c hc => ascii_of_mem_toBase64 hc
    have hsourceAddress := hhex hsource.address_hex
    have hremainderAddress := hhex hremainder.address_hex
    have hfields : Utf8.valid source.position = true ∧ Utf8.valid source.token = true ∧
        Utf8.valid remainder.position = true ∧ Utf8.valid remainder.token = true := by
      rw [hsource.position_eq, hsource.token_eq, hremainder.position_eq, hremainder.token_eq]
      exact ⟨hp, htoken, hq, huser⟩
    obtain ⟨hsourcePosition, hsourceToken, hremainderPosition, hremainderToken⟩ := hfields
    refine ⟨rfl, hcellSlug, rfl, rfl, ?_, ?_⟩
    · simp only [openingMolecule, List.forall_mem_cons, List.not_mem_nil, false_implies, implies_true, and_true]
      refine ⟨Atom.wireUtf8_new _ _ hsourcePosition hsourceAddress hisotope hsourceToken hvalue hbatchId hmetaType hmetaId hmetas,
        Atom.wireUtf8_new _ _ hremainderPosition hremainderAddress rfl hremainderToken rfl rfl rfl hbundle ?_⟩
      intro m hm
      simp only [List.mem_append, List.mem_singleton] at hm
      obtain (rfl | hm) | rfl := hm
      · exact ⟨rfl, hsourcePosition⟩
      · split at hm
        · cases hm
        · obtain rfl := List.mem_singleton.mp hm
          exact ⟨rfl, hbase64 _⟩
      · exact ⟨rfl, rfl⟩
    · rintro w (hw | hw)
      · obtain rfl := Option.some.inj hw
        exact ⟨hsourceAddress, hsourcePosition, hsourceToken⟩
      · obtain rfl := Option.some.inj hw
        exact ⟨hremainderAddress, hremainderPosition, hremainderToken⟩
  balance w hw := by
    obtain rfl := Option.some.inj hw
    exact .inl hsource.no_balance

theorem submittable_frontMolecule {isotope : String} {token p q : ByteString} {v v' : Int}
    (hsource : source.Made H secret.bytes token p v) (hremainder : remainder.Made H secret.bytes (ascii "USER") q v')
    (htoken : Utf8.valid token = true) (hp : Utf8.valid p = true) (hq : Utf8.valid q = true)
    {cellSlug : ByteString} (hcellSlug : Utf8.valid cellSlug = true) (hisotope : Utf8.valid (ascii isotope) = true)
    (hmetaType : Utf8.valid metaType = true) (hmetaId : Utf8.valid metaId = true)
    (hmetas : ∀ m ∈ metas, Utf8.valid m.1 = true ∧ Utf8.valid m.2 = true) (clock : Nat → Int64)
    (hconserved : ∀ hash, hash ≠ [] → Molecule.verifyTokenIsotopeV
      { frontMolecule isotope cellSlug clock source remainder metas metaType metaId with molecularHash := hash } = .ok true) :
    Submittable H secret (frontMolecule isotope cellSlug clock source remainder metas metaType metaId) :=
  submittable_openingMolecule hsource hremainder htoken hp hq hcellSlug hisotope rfl rfl hmetaType hmetaId hmetas clock hconserved

theorem submittable_metaMolecule {p q : ByteString} {v v' : Int} (hsource : source.Made H secret.bytes (ascii "USER") p v)
    (hremainder : remainder.Made H secret.bytes (ascii "USER") q v') (hp : Utf8.valid p = true) (hq : Utf8.valid q = true)
    {cellSlug : ByteString} (hcellSlug : Utf8.valid cellSlug = true) (hmetaType : Utf8.valid metaType = true)
    (hmetaId : Utf8.valid metaId = true) (hmetas : ∀ m ∈ metas, Utf8.valid m.1 = true ∧ Utf8.valid m.2 = true)
    (clock : Nat → Int64) :
    Submittable H secret (metaMolecule cellSlug clock source remainder metas metaType metaId) :=
  submittable_frontMolecule hsource hremainder rfl hp hq hcellSlug rfl hmetaType hmetaId hmetas clock
    fun _ hhash => (Molecule.verifyTokenIsotopeV_rehashed (List.cons_ne_nil _ _) rfl hhash).trans rfl

end Built

section Sent

variable {E : Type} {S : Setting E} {w u : World E} {secret : Secret} {bundle : ByteString} {mlKemParameterSet : Int}
  {source remainder : Wallet}

/-- A pointer that is answered gives the wallet at its position. -/
theorem exec_continuIdSourceWallet_at (hsecret : w.client.secret = some secret) {position address : ByteString} {version : Int}
    (hpointer : (S.serve (.continuId bundle) w.env).1.pointer S.floatText = (position, address)) (hposition : position ≠ [])
    (hversion : w.client.bindOwnWalletOtsVersion S.hash (ascii "USER") position address = .ok version)
    (hsource : Wallet.new S.hash S.kem secret.bytes (ascii "USER") position mlKemParameterSet version = .ok source) :
    (continuIdSourceWallet S bundle mlKemParameterSet).exec w = (.ok source, w.asked S (.continuId bundle)) := by
  have hasked : (tryCatch (return (← query S (.continuId bundle)).pointer S.floatText) fun _ => return ([], []) :
      Run E (ByteString × ByteString)).exec w = (.ok (position, address), w.asked S (.continuId bundle)) := by
    simp only [Act.exec_tryCatch, Act.exec_bind, query, exec_exchange, permit_continuId, Act.andThen_ok, Act.exec_pure, hpointer]
    rfl
  have hclient : (w.asked S (.continuId bundle)).client = w.client := rfl
  rw [continuIdSourceWallet, exec_bind_of_ok hasked]
  dsimp only
  rw [exec_bind_of_ok (exec_secretValue (hclient ▸ hsecret)), exec_bind_of_ok (Act.exec_get _), if_neg hposition, hclient,
    exec_bind_of_ok (by rw [Act.exec_ofExcept, hversion]), exec_newWallet_at hposition hsource]

/-- Without a pointer, or when the query fails in any way, the wallet is a fresh one. -/
theorem exec_continuIdSourceWallet_fresh (hsecret : w.client.secret = some secret)
    (hpointer : ((S.serve (.continuId bundle) w.env).1.pointer S.floatText).1 = [])
    (hsource : Wallet.new S.hash S.kem secret.bytes (ascii "USER") (S.draw w.drawn).bytes mlKemParameterSet
      w.client.config.otsVersion = .ok source) :
    (continuIdSourceWallet S bundle mlKemParameterSet).exec w =
      (.ok source, { w.asked S (.continuId bundle) with drawn := w.drawn + 1 }) := by
  have hasked : (tryCatch (return (← query S (.continuId bundle)).pointer S.floatText) fun _ => return ([], []) :
      Run E (ByteString × ByteString)).exec w =
        (.ok ((S.serve (.continuId bundle) w.env).1.pointer S.floatText), w.asked S (.continuId bundle)) := by
    simp only [Act.exec_tryCatch, Act.exec_bind, query, exec_exchange, permit_continuId, Act.andThen_ok, Act.exec_pure]
    rfl
  have hclient : (w.asked S (.continuId bundle)).client = w.client := rfl
  rw [continuIdSourceWallet, exec_bind_of_ok hasked]
  dsimp only
  rw [exec_bind_of_ok (exec_secretValue (hclient ▸ hsecret)), exec_bind_of_ok (Act.exec_get _), if_pos hpointer, hclient]
  exact exec_newWallet_drawn hsource

/-- Once its source is found, the operation sends its molecule. -/
theorem createMeta_sends {metaType metaId : ByteString} {metas : Metas} (hauth : w.client.isAuthenticated = true)
    (hsecret : w.client.secret = some secret) (hbundle : w.client.bundle = some bundle)
    (hplain : w.client.transport.cipherEnabled = false)
    (hsource : (continuIdSourceWallet S bundle w.client.config.mlKemParameterSet).exec w = (.ok source, u))
    (hclient : u.client = w.client)
    (hremainder : Wallet.new S.hash S.kem secret.bytes (ascii "USER") (S.draw u.drawn).bytes w.client.config.mlKemParameterSet
      (w.client.config.successorOtsVersion source.otsVersion) = .ok remainder)
    (hsubmittable : Submittable S.hash secret (metaMolecule (w.client.config.cellSlug.getD []) (S.clock (u.drawn + 1)) source
      remainder metas metaType metaId)) :
    ∃ m, (metaMolecule (w.client.config.cellSlug.getD []) (S.clock (u.drawn + 1)) source remainder metas metaType
        metaId).Completes S.hash m ∧
      ((createMeta S metaType metaId metas).exec w).2 = ({ u with drawn := u.drawn + 1 } : World E).proposed S secret m := by
  have hremainderStep : (newWallet S secret (ascii "USER") [] w.client.config.mlKemParameterSet
      (w.client.config.successorOtsVersion source.otsVersion)).exec u = (.ok remainder, { u with drawn := u.drawn + 1 }) :=
    exec_newWallet_drawn hremainder
  obtain ⟨m, hcompletes, -, hsends⟩ := hsubmittable.sends (w := { u with drawn := u.drawn + 1 })
    (show u.client.secret = some secret from hclient ▸ hsecret)
    (show u.client.transport.cipherEnabled = false from hclient ▸ hplain)
  refine ⟨m, hcompletes, ?_⟩
  rw [createMeta, exec_bind_of_ok (exec_ensureAuthenticated hauth), exec_bind_of_ok (exec_secretValue hsecret),
    exec_bind_of_ok (exec_getBundle hbundle), exec_bind_of_ok (Act.exec_get _), exec_bind_of_ok hsource,
    exec_bind_of_ok hremainderStep, exec_bind_of_ok (exec_assemble (run_initMeta _ _))]
  exact hsends

end Sent

end KnishIO
