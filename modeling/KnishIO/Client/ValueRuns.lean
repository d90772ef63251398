import KnishIO.Client.Debits
import KnishIO.Client.Funding
import KnishIO.Client.Lookups

open ByteString

namespace KnishIO

section Told

variable {F : Json.FloatText}

theorem writable_parseTokenUnit {u : Json} (h : u.Valid F) : (Wallet.unitTriple (parseTokenUnit u)).utf8 = true := by
  have hmetas : (Json.object ((parseTokenUnit u).metas.map fun m => (m.1, Json.str m.2))).Valid F := by
    refine Json.valid_object (List.forall_mem_map.mpr fun m hm => ?_)
    obtain ⟨⟨key, value⟩, hmember, hstring⟩ := List.mem_filterMap.mp hm
    cases hfound : u.find? (ascii "metas") with
    | none => simp [hfound] at hmember
    | some metas =>
      have hvalid := Json.valid_of_find? h hfound
      rw [hfound, Option.map_some, Option.getD_some] at hmember
      cases metas with
      | obj members =>
        obtain ⟨hkey, hvalue⟩ := (Json.validMembers_iff F members).mp hvalid.2 _ hmember
        cases value with
        | str s =>
          obtain rfl := Option.some.inj hstring
          exact ⟨hkey, hvalue⟩
        | _ => simp [Json.string?] at hstring
      | _ => simp [Json.members] at hmember
  have htriple : (Wallet.unitTriple (parseTokenUnit u)).Valid F :=
    Json.valid_arr (by simpa using ⟨valid_stringAt h "id", valid_stringAt h "name", hmetas⟩)
  exact Json.Valid.utf8 _ htriple

/-- The units of a row can be written again. -/
theorem Reply.writable_tokenWallet (F : Json.FloatText) (reply : Reply) : Molecule.Writable (reply.tokenWallet F).tokenUnits := by
  rw [Reply.tokenWallet]
  cases hrow : reply.row F "Balance" with
  | none => simp [Molecule.Writable]
  | some bal =>
    simp only [parseWalletTokenUnits]
    cases hunits : bal.find? (ascii "tokenUnits") with
    | none => simp [Molecule.Writable]
    | some units =>
      have hvalid := Json.valid_of_find? (Reply.valid_row hrow) hunits
      cases units with
      | arr units =>
        exact List.forall_mem_map.mpr fun u hu => writable_parseTokenUnit ((Json.validItems_iff F units).mp hvalid u hu)
      | _ => simp [Molecule.Writable]

end Told

section Wallets

variable {H : Shake256} {K : MlKem} {secret : Secret} {token position : ByteString} {mlkemParameterSet otsVersion : Int}
  {balance : Nat} {wallet remainder : Wallet}

/-- A wallet of the secret that holds a balance. -/
structure Wallet.Funds (H : Shake256) (secret : Secret) (slug : ByteString) (held : Nat) (wallet : Wallet) : Prop
    extends wallet.Holds slug held where
  address_eq : Wallet.addressAt H secret.bytes slug wallet.position wallet.otsVersion = .ok wallet.address
  checked : wallet.otsVersion = 1 ∨ wallet.otsVersion = 2

theorem Wallet.takes_new (h : Wallet.new H K secret.bytes token position mlkemParameterSet otsVersion = .ok wallet)
    (htoken : Utf8.valid token = true) (hposition : Utf8.valid position = true) : wallet.Takes token := by
  have hencoded := Wallet.encoded_new h htoken hposition
  obtain ⟨key, mlkemPublicKey, -, -, rfl⟩ := Wallet.new_ok h
  exact { hencoded with token_eq := rfl, units := List.forall_mem_nil _ }

theorem Wallet.Made.owned (h : wallet.Made H secret.bytes token position otsVersion) : wallet.bundle ≠ [] := by
  have hlength : wallet.bundle.length = 64 := by rw [h.bundle_eq, Wallet.generateBundleHash, length_shake256Hex]
  exact List.ne_nil_of_length_pos (by omega)

/-- A wallet that the client made, with what a row says of it. -/
theorem Wallet.Takes.funds (h : wallet.Takes token) (hmade : wallet.Made H secret.bytes token position otsVersion)
    (hversion : otsVersion = 1 ∨ otsVersion = 2) {units : List TokenUnit} {batchId : ByteString}
    (hunits : Molecule.Writable units) (hbatchId : Utf8.valid batchId = true) :
    Wallet.Funds H secret token balance
      { wallet with balance := Decimal.ofNat balance, tokenUnits := units, batchId } where
  token := h.token
  position := h.position
  address := h.address
  bundle := h.bundle
  batchId := hbatchId
  token_eq := h.token_eq
  units := hunits
  balance_eq := rfl
  owned := hmade.owned
  address_eq := by
    have haddress := hmade.address_eq
    rw [← hmade.position_eq, ← hmade.otsVersion_eq] at haddress
    exact haddress
  checked := hmade.otsVersion_eq ▸ hversion

theorem Wallet.Takes.set (h : wallet.Takes token) {units : List TokenUnit} (hunits : Molecule.Writable units) :
    Wallet.Takes token { wallet with tokenUnits := units } :=
  { h with units := hunits }

theorem Wallet.Funds.set (h : wallet.Funds H secret token balance) {units : List TokenUnit} (hunits : Molecule.Writable units) :
    Wallet.Funds H secret token balance { wallet with tokenUnits := units } :=
  { h with units := hunits }

theorem Wallet.Takes.shadow (h : wallet.Takes token) {bundle batchId : ByteString} (hbundle : Utf8.valid bundle = true)
    (hbatchId : Utf8.valid batchId = true) : (shadowOf wallet bundle batchId).Takes token :=
  { h with bundle := hbundle, batchId := hbatchId, address := rfl, position := rfl }

theorem writable_filter {units : List TokenUnit} (h : Molecule.Writable units) (p : TokenUnit → Bool) :
    Molecule.Writable (units.filter p) :=
  fun u hu => h u (List.mem_filter.mp hu).1

/-- All wallets of a split can be written. -/
theorem Wallet.Funds.splitUnits (h : wallet.Funds H secret token balance) (hremainder : remainder.Takes token)
    (units : List ByteString) (recipient : Option Wallet) (hrecipient : ∀ r ∈ recipient, r.Takes token) :
    (wallet.splitUnits units remainder recipient).1.Funds H secret token balance ∧
      (wallet.splitUnits units remainder recipient).2.1.Takes token ∧
      ∀ r ∈ (wallet.splitUnits units remainder recipient).2.2, r.Takes token := by
  rw [Wallet.splitUnits]
  split
  · exact ⟨h, hremainder, hrecipient⟩
  · refine ⟨h.set (writable_filter h.units _), hremainder.set (writable_filter h.units _), fun r hr => ?_⟩
    obtain ⟨r', hr', rfl⟩ := Option.mem_map.mp hr
    exact (hrecipient r' hr').set (writable_filter h.units _)

theorem Wallet.takes_getD {recipient : Option Wallet} (h : ∀ r ∈ recipient, r.Takes token) (hwallet : wallet.Takes token) :
    (recipient.getD wallet).Takes token := by
  cases recipient with
  | none => exact hwallet
  | some r => exact h r rfl

theorem Wallet.Funds.splitUnitsMulti (h : wallet.Funds H secret token balance) (hremainder : remainder.Takes token)
    (lists : List (List ByteString)) {recipients : List Wallet} (hrecipients : ∀ r ∈ recipients, r.Takes token) :
    (wallet.splitUnitsMulti lists recipients remainder).1.Funds H secret token balance ∧
      (∀ r ∈ (wallet.splitUnitsMulti lists recipients remainder).2.1, r.Takes token) ∧
      (wallet.splitUnitsMulti lists recipients remainder).2.2.Takes token := by
  rw [Wallet.splitUnitsMulti]
  split
  · exact ⟨h, hrecipients, hremainder⟩
  · refine ⟨h.set (writable_filter h.units _), fun r hr => ?_, hremainder.set (writable_filter h.units _)⟩
    obtain ⟨⟨r', i⟩, hr', rfl⟩ := List.mem_map.mp hr
    exact (hrecipients r' (List.fst_mem_of_mem_zipIdx hr')).set (writable_filter h.units _)

end Wallets

section Submission

variable {E : Type} {S : Setting E} {w u : World E} {secret : Secret} {bundle token : ByteString} {balance : Nat} {ks : List Int}

/-- The operation sends a molecule that passes the check and passes the balance on, or, where the balance is no
`int`, none. -/
def Clears (S : Setting E) (w : World E) (secret : Secret) (balance : Nat) (ks : List Int) (r : Throws Response × World E) :
    Prop :=
  if balance < 2 ^ 31 then
    ∃ u m, Quiet S w u ∧ r.2 = u.proposed S secret m ∧ Molecule.check S.hash m = .ok () ∧
      Molecule.Carry m.atoms (Molecule.ledgerValues balance ks)
  else Quiet S w r.2 ∧ ∃ e, r.1 = .error e

/-- A molecule in order whose source holds more than an `int` is signed and checked, but not written. -/
theorem submitMolecule_throws {m : Molecule} {front : Atom} {rest : List Atom} (hsecret : u.client.secret = some secret)
    (hatoms : m.atoms = front :: rest) (hfresh : ∀ a ∈ m.atoms, a.otsFragment = [])
    (haddress : Wallet.addressAt S.hash secret.bytes front.token front.position m.signingOtsVersion = .ok front.walletAddress)
    (hcontinuId : Molecule.verifyContinuId m = true)
    (hconserved : ∀ hash, hash ≠ [] → Molecule.verifyTokenIsotopeV { m with molecularHash := hash } = .ok true)
    (hutf8 : m.WireUtf8) (hlarge : ¬ m.IntBalance) : ∃ e, (submitMolecule S m).exec u = (.error e, u) := by
  obtain ⟨position, m', hsign, hcheck, hutf8', hsource, -⟩ := Molecule.sign_accepted hatoms hfresh haddress hcontinuId hconserved
    hutf8 false true
  have hchecked : (Act.ofExcept ((Molecule.check S.hash m').mapError recast) : Run E Unit).exec u = (.ok (), u) := by
    rw [hcheck]
    rfl
  have hlarge' : ¬ m'.IntBalance := by
    rw [Molecule.IntBalance, hsource]
    exact hlarge
  cases htext : m'.toJson with
  | ok text => exact absurd ((Molecule.toJson_ok_iff hutf8').mp ⟨text, htext⟩) hlarge'
  | error e =>
    refine ⟨e, ?_⟩
    rw [submitMolecule, exec_bind_of_ok (Act.exec_get u)]
    simp only [hsecret]
    rw [exec_bind_of_ok (by rw [Act.exec_ofExcept, Act.run_eq_ok.mpr hsign])]
    simp only [↓reduceIte]
    rw [exec_bind_of_ok hchecked, htext, Act.exec_bind]
    rfl

/-- What a builder leaves on the fresh molecule of such a client is signed, checked and sent; only a balance that is
no `int` stops it. -/
theorem World.Ready.pays (h : w.Ready S secret bundle) (hclient : u.client = w.client) {b : Molecule.Builder} {remainder : Wallet}
    (hsource : b.source.Funds S.hash secret token balance) (hremainder : remainder.Encoded) {atoms : List Atom} {built : Molecule}
    (hrun : (b.run (S.clock u.drawn)).run
      (Molecule.withWallets (w.client.config.cellSlug.getD []) (S.clock u.drawn 0) b.source remainder) = .ok (atoms, built))
    (hpays : Molecule.Pays token balance ks b.source
      (Molecule.withWallets (w.client.config.cellSlug.getD []) (S.clock u.drawn 0) b.source remainder) built)
    (hsum : (ks.map fun k => |k|).sum < 2 ^ 53) (hbalance : balance < 2 ^ 53) (htoken : token ≠ ascii "USER") :
    let r := (assemble S (w.client.config.cellSlug.getD []) b.source remainder b >>= fun m => submitMolecule S m).exec u
    if balance < 2 ^ 31 then ∃ m, built.Completes S.hash m ∧ r.2 = u.proposed S secret m else ∃ e, r = (.error e, u) := by
  have hsecret : u.client.secret = some secret := hclient ▸ h.secret_eq
  obtain ⟨front, rest, hatoms, hfront, hposition, haddress⟩ := hpays.front
  have hwallets : built.sourceWallet = some b.source ∧ built.remainderWallet = some remainder := by
    rw [hpays.appended_eq]
    exact ⟨rfl, rfl⟩
  have hversion : built.signingOtsVersion = b.source.otsVersion := by rw [Molecule.signingOtsVersion, hwallets.1]
  have hplace : Wallet.addressAt S.hash secret.bytes front.token front.position built.signingOtsVersion =
      .ok front.walletAddress := by
    rw [hfront, hposition, haddress, hversion]
    exact hsource.address_eq
  have hcontinuId : Molecule.verifyContinuId built = true :=
    Molecule.verifyContinuId_of_token hatoms (hfront.trans_ne htoken)
  have hconserved (hash : ByteString) (hhash : hash ≠ []) :
      Molecule.verifyTokenIsotopeV { built with molecularHash := hash } = .ok true := by
    have hmarked : Molecule.Conserved token balance ks { built with molecularHash := hash }.atoms := hpays.conserved
    exact hmarked.accepted hhash hbalance hsum
  have hutf8 : built.WireUtf8 := by
    rw [hpays.appended_eq]
    refine ⟨rfl, h.cellSlug, rfl, rfl, fun a ha => (hpays.fresh a ha).1, ?_⟩
    rintro wallet (hwallet | hwallet)
    · obtain rfl := Option.some.inj hwallet
      exact ⟨hsource.address, hsource.position, hsource.token⟩
    · obtain rfl := Option.some.inj hwallet
      exact ⟨hremainder.address, hremainder.position, hremainder.token⟩
  have hunsigned : ∀ a ∈ built.atoms, a.otsFragment = [] := fun a ha => (hpays.fresh a ha).2
  have hheld : stoll b.source.balance = .ok (balance : Int) := Molecule.stoll_held hsource.toHolds hbalance
  have hint : built.IntBalance ↔ balance < 2 ^ 31 := by
    rw [Molecule.IntBalance, hwallets.1]
    constructor
    · intro hread
      obtain hempty | ⟨k, hk, -, hhigh⟩ := hread _ rfl
      · rw [hempty] at hheld
        cases hheld
      · obtain rfl := Except.ok.inj (hheld.symm.trans hk)
        exact_mod_cast hhigh
    · rintro hsmall wallet hwallet
      obtain rfl := Option.some.inj hwallet
      exact .inr ⟨balance, hheld, by omega, by exact_mod_cast hsmall⟩
  dsimp only
  rw [exec_bind_of_ok (exec_assemble hrun)]
  split
  case isTrue hsmall =>
    have hsubmittable : Submittable S.hash secret built := by
      refine ⟨?_, ?_, hunsigned, hcontinuId, hconserved, hutf8, Molecule.readableBalance_iff.mpr (hint.mpr hsmall)⟩
      · rw [hatoms]
        exact List.cons_ne_nil _ _
      · intro front' rest' hatoms'
        obtain ⟨rfl, -⟩ := List.cons.inj (hatoms.symm.trans hatoms')
        exact hplace
    obtain ⟨m, hcompletes, -, hsends⟩ := hsubmittable.sends (w := u) hsecret (hclient ▸ h.plain)
    exact ⟨m, hcompletes, hsends⟩
  case isFalse hlarge =>
    exact submitMolecule_throws (S := S) (u := u) hsecret hatoms hunsigned hplace hcontinuId hconserved hutf8
      (fun h => hlarge (hint.mp h))

/-- The values of the atoms are not signed over. -/
theorem Molecule.Completes.carry {H : Shake256} {built m : Molecule} (h : built.Completes H m)
    (hcarry : Molecule.Carry built.atoms ks) :
    Molecule.Carry m.atoms ks := by
  have hvalues : m.atoms.map (·.value) = built.atoms.map (·.value) := by
    have hsame := congrArg (List.map (·.value)) h.atoms
    rw [List.map_map, List.map_map] at hsame
    exact hsame
  rw [Molecule.Carry, ← List.forall₂_map_left_iff (f := fun a : Atom => a.value)
    (R := fun s v => CFloat.decimalInt? s = some v)] at hcarry ⊢
  rwa [hvalues]

theorem exec_assemble_error {cellSlug : ByteString} {source remainder : Wallet} {b : Molecule.Builder} {e : Exception}
    (h : (b.run (S.clock u.drawn)).run (Molecule.withWallets cellSlug (S.clock u.drawn 0) source remainder) = .error e) :
    (assemble S cellSlug source remainder b).exec u = (.error e, u) := by
  rw [assemble, exec_bind_of_ok (Act.exec_get u), Act.exec_bind, Act.exec_ofExcept, h]
  rfl

/-- The end of a value operation of such a client. -/
theorem World.Ready.clears (h : w.Ready S secret bundle) (hquiet : Quiet S w u) {b : Molecule.Builder} {remainder : Wallet}
    (hsource : b.source.Funds S.hash secret token balance) (hremainder : remainder.Encoded)
    (haffords : Molecule.Affords token balance ks b) (hks : Molecule.Within balance ks) (hbalance : balance < 2 ^ 53)
    (htoken : token ≠ ascii "USER") :
    Clears S w secret balance ks
      ((assemble S (w.client.config.cellSlug.getD []) b.source remainder b >>= fun m => submitMolecule S m).exec u) := by
  have habs : ks.map (fun k => |k|) = ks :=
    (List.map_congr_left fun k hk => abs_of_nonneg (hks.nonneg k hk)).trans (List.map_id' ks)
  have hcovered := hks.covered
  obtain ⟨atoms, built, hrun, hpays⟩ | ⟨hlarge, e, hrun⟩ := haffords.builds (S.clock u.drawn)
    (Molecule.withWallets (w.client.config.cellSlug.getD []) (S.clock u.drawn 0) b.source remainder) hks hbalance rfl
  · have hsent := h.pays hquiet.client hsource hremainder hrun hpays (by rw [habs]; omega) hbalance htoken
    rw [Clears]
    split_ifs at hsent ⊢
    · obtain ⟨m, hcompletes, hsends⟩ := hsent
      exact ⟨u, m, hquiet, hsends, hcompletes.check, hcompletes.carry hpays.conserved.carry⟩
    · obtain ⟨e, he⟩ := hsent
      rw [he]
      exact ⟨hquiet, e, rfl⟩
  · rw [Clears, if_neg (by omega), Act.exec_bind, exec_assemble_error hrun]
    exact ⟨hquiet, e, rfl⟩

end Submission

section Rows

variable {E : Type} {S : Setting E} {w u : World E} {secret : Secret} {bundle token : ByteString} {balance : Nat} {ks : List Int}
  {info : TokenWalletInfo}

/-- A row of a wallet of the client, with a balance in the canonical form. -/
structure TokenWalletInfo.Backs (H : Shake256) (client : Client) (token : ByteString) (held : Nat) (info : TokenWalletInfo) :
    Prop where
  found : info.found = true
  balance_eq : info.balance = Decimal.ofNat held
  accepted : ∀ e, client.bindOwnWalletOtsVersion H token info.position info.address ≠ .error e

/-- The wallet of such a row. -/
theorem World.Ready.ledger (h : w.Ready S secret bundle) (hclient : u.client = w.client) {reply : Reply}
    (hrow : (reply.tokenWallet S.floatText).Backs S.hash w.client token balance) (htoken : Utf8.valid token = true)
    {mlKemParameterSet : Int} (hset : mlKemParameterSet = 768 ∨ mlKemParameterSet = 1024) :
    ∃ ledger p v, (ledgerWallet S secret token mlKemParameterSet (reply.tokenWallet S.floatText)).exec u = (.ok ledger, u) ∧
      ledger.Made S.hash secret.bytes token p v ∧ (v = 1 ∨ v = 2) ∧ ledger.Takes token := by
  have hposition := Reply.tokenWallet_position S.floatText reply hrow.found
  cases hbind : w.client.bindOwnWalletOtsVersion S.hash token (reply.tokenWallet S.floatText).position
    (reply.tokenWallet S.floatText).address with
  | error e => exact absurd hbind (hrow.accepted e)
  | ok version =>
    have hversion := Client.bindOwnWalletOtsVersion_checked h.secret_eq hbind
    obtain ⟨ledger, hledger⟩ := Wallet.new_exists (H := S.hash) h.kem token secret.nonempty hposition hset hversion
    exact ⟨ledger, _, _, exec_ledgerWallet hposition (hclient ▸ hbind) hledger, Wallet.made_new hledger, hversion,
      Wallet.takes_new hledger htoken (Reply.utf8_tokenWallet S.floatText reply).1⟩

/-- A wallet that is drawn for the operation. -/
theorem World.Ready.drawn (h : w.Ready S secret bundle) (u : World E) (htoken : Utf8.valid token = true)
    {mlKemParameterSet version : Int}
    (hset : mlKemParameterSet = 768 ∨ mlKemParameterSet = 1024) (hversion : version = 1 ∨ version = 2) :
    ∃ wallet p, (newWallet S secret token [] mlKemParameterSet version).exec u =
        (.ok wallet, { u with drawn := u.drawn + 1 }) ∧
      wallet.Takes token ∧ wallet.Made S.hash secret.bytes token p version := by
  obtain ⟨wallet, hwallet, hnew⟩ := h.draws u secret token hset hversion
  exact ⟨wallet, _, hwallet, Wallet.takes_new hnew htoken (utf8_randomHex _), Wallet.made_new hnew⟩

theorem spendable_held (balance : Nat) (hbalance : balance < 2 ^ 53) : spendable (Decimal.ofNat balance) = balance := by
  have hread : stoll (Decimal.ofInt (balance : Int)) = .ok (balance : Int) := stoll_ofInt (by omega) (by omega)
  rw [show Decimal.ofNat balance = Decimal.ofInt balance by simp [Decimal.ofInt], spendable_of_stoll hread]

/-- The shadow wallets of the recipients are drawn one after the other. -/
theorem World.Ready.shadows (h : w.Ready S secret bundle) (htoken : Utf8.valid token = true) {recipients : List TransferRecipient}
    (hrecipients : ∀ r ∈ recipients, Utf8.valid r.bundleHash = true ∧ Utf8.valid r.batchId = true) (u : World E) :
    ∃ shadows, (recipientShadows S secret token recipients).exec u =
        (.ok shadows, { u with drawn := u.drawn + recipients.length }) ∧
      shadows.length = recipients.length ∧ ∀ s ∈ shadows, s.Takes token := by
  induction recipients generalizing u with
  | nil => exact ⟨[], rfl, rfl, by simp⟩
  | cons r recipients ih =>
    obtain ⟨⟨hbundle, hbatchId⟩, hrest⟩ := List.forall_mem_cons.mp hrecipients
    obtain ⟨drawn, p, hdrawn, htakes, -⟩ := h.drawn u htoken (.inr rfl) (.inl rfl)
    obtain ⟨shadows, hshadows, hlength, hall⟩ := ih hrest { u with drawn := u.drawn + 1 }
    refine ⟨shadowOf drawn r.bundleHash r.batchId :: shadows, ?_, by rw [List.length_cons, List.length_cons, hlength],
      List.forall_mem_cons.mpr ⟨htakes.shadow hbundle hbatchId, hall⟩⟩
    rw [recipientShadows, exec_bind_of_ok hdrawn, exec_bind_of_ok hshadows, List.length_cons, Act.exec_pure]
    simp only [Nat.add_assoc, Nat.add_comm 1]

/-- The amounts of recipients within a balance. -/
theorem recipientAmounts_within {recipients : List TransferRecipient} (hamounts : recipients.mapM (·.amountLL) = .ok ks)
    (hnonneg : ∀ k ∈ ks, 0 ≤ k) {total : Int} (htotal : 0 ≤ total) (hsum : total + ks.sum < 2 ^ 63) :
    recipientAmounts total recipients = .ok (ks.map Decimal.ofInt, total + ks.sum) := by
  induction recipients generalizing ks total with
  | nil =>
    obtain rfl : ks = [] := (Except.ok.inj hamounts).symm
    rw [List.sum_nil, add_zero]
    rfl
  | cons r recipients ih =>
    rw [List.mapM_cons] at hamounts
    obtain ⟨k, hk, hamounts⟩ := Throws.bind_ok hamounts
    obtain ⟨ks', hks', hamounts⟩ := Throws.bind_ok hamounts
    obtain rfl := Except.ok.inj hamounts
    obtain ⟨hfirst, hrest⟩ := List.forall_mem_cons.mp hnonneg
    have htail := List.sum_nonneg hrest
    rw [List.sum_cons] at hsum ⊢
    have hnext : signed 64 (total + k) = .ok (total + k) := signed_ok.mpr ⟨rfl, by omega, by omega⟩
    rw [recipientAmounts, Throws.bind_of_ok hk, Throws.bind_of_ok hnext,
      Throws.bind_of_ok (ih hks' hrest (by omega) (by omega)), add_assoc]
    rfl

end Rows

section Operations

variable {E : Type} {S : Setting E} {w : World E} {secret : Secret} {bundle token : ByteString} {balance : Nat} {ks : List Int}

/-- The row that the client is told. -/
def told (S : Setting E) (w : World E) (bundle token : ByteString) (buffer : Bool) : Reply :=
  (S.serve (.balance bundle token buffer) w.env).1

theorem World.asked_client (w : World E) (request : Request) : (w.asked S request).client = w.client := rfl

theorem World.Ready.tells (h : w.Ready S secret bundle) (token : ByteString) (buffer : Bool) :
    (resolveTokenWallet S bundle token buffer).exec w =
      (.ok ((told S w bundle token buffer).tokenWallet S.floatText), w.asked S (.balance bundle token buffer)) :=
  exec_resolveTokenWallet h.plain bundle token buffer

/-- A token that can be named in an atom and needs no ContinuID atom. -/
def Plain (token : ByteString) : Prop := Utf8.valid token = true ∧ token ≠ ascii "USER"

theorem TokenWalletInfo.Backs.fund {reply : Reply} {ledger : Wallet} {p : ByteString} {v : Int}
    (h : (reply.tokenWallet S.floatText).Backs S.hash w.client token balance) (htakes : ledger.Takes token)
    (hmade : ledger.Made S.hash secret.bytes token p v) (hv : v = 1 ∨ v = 2) :
    ((reply.tokenWallet S.floatText).fund ledger).Funds S.hash secret token balance := by
  rw [TokenWalletInfo.fund, h.balance_eq]
  exact htakes.funds hmade hv (Reply.writable_tokenWallet S.floatText reply) htakes.batchId

theorem World.Ready.transferToken_clears (h : w.Ready S secret bundle) (htoken : Plain token) {bundleHash batchId : ByteString}
    (hbundleHash : Utf8.valid bundleHash = true) (hbatchId : Utf8.valid batchId = true) {amount : BinaryFloat.Value} {k : Int}
    (hamount : toLongLong amount = .ok k) (hks : Molecule.Within balance [k]) (hbalance : balance < 2 ^ 53)
    (hrow : ((told S w bundle token false).tokenWallet S.floatText).Backs S.hash w.client token balance)
    (units : List ByteString) :
    Clears S w secret balance [k] ((transferToken S bundleHash token amount batchId units).exec w) := by
  -- the states after the query, after the first draw and after the second
  let asked := w.asked S (.balance bundle token false)
  let first : World E := { asked with drawn := asked.drawn + 1 }
  let second : World E := { first with drawn := first.drawn + 1 }
  obtain ⟨ledger, p, v, hledger, hmade, hv, htakes⟩ := h.ledger (u := asked) rfl hrow htoken.1 (.inr rfl)
  obtain ⟨drawn, -, hdrawn, hdrawnTakes, -⟩ := h.drawn asked htoken.1 (.inr rfl) (.inl rfl)
  obtain ⟨fresh, -, hfresh, hfreshTakes, -⟩ := h.drawn first htoken.1 (.inr rfl)
    (w.client.config.successorOtsVersion_checked (hmade.otsVersion_eq ▸ hv))
  have hshadow := hdrawnTakes.shadow hbundleHash hbatchId
  obtain ⟨hsource, hremainder, hrecipient⟩ := (hrow.fund htakes hmade hv).splitUnits hfreshTakes units
    (some (shadowOf drawn bundleHash batchId)) (by simpa using hshadow)
  have htaken := Wallet.takes_getD hrecipient hshadow
  have hcovered : k ≤ spendable ((told S w bundle token false).tokenWallet S.floatText).balance := by
    rw [hrow.balance_eq, spendable_held balance hbalance]
    simpa using hks.covered
  rw [transferToken, exec_bind_of_ok (exec_ensureAuthenticated h.authenticated), exec_bind_of_ok (exec_secretValue h.secret_eq),
    exec_bind_of_ok (exec_getBundle h.bundle_eq), exec_bind_of_ok (h.tells token false),
    exec_bind_of_ok (exec_require_pos hrow.found), exec_bind_of_ok (by rw [hamount, Act.exec_ofExcept]),
    exec_bind_of_ok (exec_require_pos hcovered), exec_bind_of_ok (Act.exec_get _)]
  dsimp only
  rw [World.asked_client, exec_bind_of_ok hledger, exec_bind_of_ok hdrawn, exec_bind_of_ok hfresh]
  exact h.clears (u := second) (.draw (.draw (.ask _ rfl .refl))) hsource hremainder.toEncoded
    (.initValue hsource.toHolds htaken hremainder) hks hbalance htoken.2

theorem World.Ready.burnToken_clears (h : w.Ready S secret bundle) (htoken : Plain token) {amount : BinaryFloat.Value} {k : Int}
    (hamount : toLongLong amount = .ok k) (hks : Molecule.Within balance [k]) (hbalance : balance < 2 ^ 53)
    (hrow : ((told S w bundle token false).tokenWallet S.floatText).Backs S.hash w.client token balance)
    (units : List ByteString) : Clears S w secret balance [k] ((burnToken S token amount units).exec w) := by
  let asked := w.asked S (.balance bundle token false)
  let first : World E := { asked with drawn := asked.drawn + 1 }
  let second : World E := { first with drawn := first.drawn + 1 }
  obtain ⟨ledger, p, v, hledger, hmade, hv, htakes⟩ := h.ledger (u := asked) rfl hrow htoken.1 (.inr rfl)
  have hversion : ledger.otsVersion = 1 ∨ ledger.otsVersion = 2 := hmade.otsVersion_eq ▸ hv
  obtain ⟨drawn, -, hdrawn, hdrawnTakes, -⟩ := h.drawn asked htoken.1 (.inr rfl) hversion
  obtain ⟨fresh, -, hfresh, hfreshTakes, -⟩ := h.drawn first htoken.1 (.inr rfl)
    (w.client.config.successorOtsVersion_checked hversion)
  obtain ⟨hsource, hremainder, -⟩ := (hrow.fund htakes hmade hv).splitUnits hfreshTakes units none (by simp)
  have hburned : (shadowOf drawn Molecule.zeroBundle []).Takes token := hdrawnTakes.shadow (by decide) rfl
  have hcovered : k ≤ spendable ((told S w bundle token false).tokenWallet S.floatText).balance := by
    rw [hrow.balance_eq, spendable_held balance hbalance]
    simpa using hks.covered
  rw [burnToken, exec_bind_of_ok (exec_ensureAuthenticated h.authenticated), exec_bind_of_ok (exec_secretValue h.secret_eq),
    exec_bind_of_ok (exec_getBundle h.bundle_eq), exec_bind_of_ok (h.tells token false),
    exec_bind_of_ok (exec_require_pos hrow.found), exec_bind_of_ok (by rw [hamount, Act.exec_ofExcept]),
    exec_bind_of_ok (exec_require_pos hcovered), exec_bind_of_ok (Act.exec_get _)]
  dsimp only
  rw [World.asked_client, exec_bind_of_ok hledger, exec_bind_of_ok hdrawn, exec_bind_of_ok hfresh]
  exact h.clears (u := second) (.draw (.draw (.ask _ rfl .refl))) hsource hremainder.toEncoded
    (.initValue hsource.toHolds hburned hremainder) hks hbalance htoken.2

theorem World.Ready.transferTokens_clears (h : w.Ready S secret bundle) (htoken : Plain token)
    {recipients : List TransferRecipient}
    (hrecipients : ∀ r ∈ recipients, Utf8.valid r.bundleHash = true ∧ Utf8.valid r.batchId = true)
    (hamounts : recipients.mapM (·.amountLL) = .ok ks) (hks : Molecule.Within balance ks) (hbalance : balance < 2 ^ 53)
    (hrow : ((told S w bundle token false).tokenWallet S.floatText).Backs S.hash w.client token balance) :
    Clears S w secret balance ks ((transferTokens S token recipients).exec w) := by
  let asked := w.asked S (.balance bundle token false)
  let shadowed : World E := { asked with drawn := asked.drawn + recipients.length }
  let last : World E := { shadowed with drawn := shadowed.drawn + 1 }
  obtain ⟨ledger, p, v, hledger, hmade, hv, htakes⟩ := h.ledger (u := asked) rfl hrow htoken.1 (.inr rfl)
  obtain ⟨shadows, hshadows, hlength, hshadowTakes⟩ := h.shadows htoken.1 hrecipients asked
  obtain ⟨fresh, -, hfresh, hfreshTakes, -⟩ := h.drawn shadowed htoken.1 (.inr rfl)
    (w.client.config.successorOtsVersion_checked (hmade.otsVersion_eq ▸ hv))
  obtain ⟨hsource, htaken, hremainder⟩ := (hrow.fund htakes hmade hv).splitUnitsMulti hfreshTakes (recipients.map (·.units))
    hshadowTakes
  have hsplit : ks.length = (Wallet.splitUnitsMulti (((told S w bundle token false).tokenWallet S.floatText).fund ledger)
      (recipients.map (·.units)) shadows fresh).2.1.length := by
    rw [ValueOperation.length_splitUnitsMulti, hlength, (Throws.mapM_ok_iff.mp hamounts).length_eq]
  have hcovered := hks.covered
  have hread := recipientAmounts_within hamounts hks.nonneg le_rfl (by omega)
  rw [zero_add] at hread
  have hguard : ks.sum ≤ spendable ((told S w bundle token false).tokenWallet S.floatText).balance := by
    rw [hrow.balance_eq, spendable_held balance hbalance]
    exact hcovered
  have hquiet : Quiet S w last :=
    .draw ((Quiet.ask _ rfl .refl).trans (quiet_drawn (show asked.drawn ≤ asked.drawn + recipients.length by omega)))
  rw [transferTokens, exec_bind_of_ok (exec_ensureAuthenticated h.authenticated),
    exec_bind_of_ok (exec_secretValue h.secret_eq), exec_bind_of_ok (exec_getBundle h.bundle_eq),
    exec_bind_of_ok (by rw [hread, Act.exec_ofExcept])]
  dsimp only
  rw [exec_bind_of_ok (h.tells token false), exec_bind_of_ok (exec_require_pos hrow.found),
    exec_bind_of_ok (exec_require_pos hguard), exec_bind_of_ok (Act.exec_get _)]
  rw [World.asked_client, exec_bind_of_ok hledger, exec_bind_of_ok hshadows, exec_bind_of_ok hfresh]
  exact h.clears (u := last) hquiet hsource hremainder.toEncoded (.initValues hsource.toHolds htaken hremainder hsplit) hks
    hbalance htoken.2

theorem World.Ready.depositBufferToken_clears (h : w.Ready S secret bundle) (htoken : Plain token)
    {amount : BinaryFloat.Value} {k : Int} (hamount : toLongLong amount = .ok k) (hks : Molecule.Within balance [k])
    (hbalance : balance < 2 ^ 53) {tradeRates : Metas}
    (htradeRates : ∀ m ∈ tradeRates, Utf8.valid m.1 = true ∧ Utf8.valid m.2 = true)
    (hrow : ((told S w bundle token false).tokenWallet S.floatText).Backs S.hash w.client token balance) :
    Clears S w secret balance [k] ((depositBufferToken S token amount tradeRates).exec w) := by
  let asked := w.asked S (.balance bundle token false)
  let first : World E := { asked with drawn := asked.drawn + 1 }
  let second : World E := { first with drawn := first.drawn + 1 }
  obtain ⟨ledger, p, v, hledger, hmade, hv, htakes⟩ := h.ledger (u := asked) rfl hrow htoken.1 (.inr rfl)
  have hsuccessor := w.client.config.successorOtsVersion_checked (hmade.otsVersion_eq ▸ hv)
  obtain ⟨buffer, -, hbuffer, hbufferTakes, -⟩ := h.drawn asked htoken.1 (.inr rfl) hsuccessor
  obtain ⟨fresh, -, hfresh, hfreshTakes, -⟩ := h.drawn first htoken.1 (.inr rfl) hsuccessor
  have hsource : Wallet.Funds S.hash secret token balance
      { ledger with balance := ((told S w bundle token false).tokenWallet S.floatText).balance } := by
    rw [hrow.balance_eq]
    exact htakes.funds hmade hv htakes.units htakes.batchId
  have hcovered : k ≤ spendable ((told S w bundle token false).tokenWallet S.floatText).balance := by
    rw [hrow.balance_eq, spendable_held balance hbalance]
    simpa using hks.covered
  rw [depositBufferToken, exec_bind_of_ok (exec_ensureAuthenticated h.authenticated),
    exec_bind_of_ok (exec_secretValue h.secret_eq), exec_bind_of_ok (exec_getBundle h.bundle_eq),
    exec_bind_of_ok (h.tells token false), exec_bind_of_ok (exec_require_pos hrow.found),
    exec_bind_of_ok (by rw [hamount, Act.exec_ofExcept]), exec_bind_of_ok (exec_require_pos hcovered),
    exec_bind_of_ok (Act.exec_get _)]
  dsimp only
  rw [World.asked_client, exec_bind_of_ok hledger, exec_bind_of_ok hbuffer, exec_bind_of_ok hfresh]
  exact h.clears (u := second) (.draw (.draw (.ask _ rfl .refl))) hsource hfreshTakes.toEncoded
    (.initDepositBuffer hsource.toHolds hbufferTakes hfreshTakes htradeRates) hks hbalance htoken.2

/-- The withdrawal from a source that the client holds. -/
theorem World.Ready.withdrawFrom_clears (h : w.Ready S secret bundle) (htoken : Plain token) (hbundle : Utf8.valid bundle = true)
    {amount : BinaryFloat.Value} {k : Int} (hamount : toLongLong amount = .ok k) (hks : Molecule.Within balance [k])
    (hbalance : balance < 2 ^ 53) {source : Wallet} (hsource : source.Funds S.hash secret token balance) {u : World E}
    (hquiet : Quiet S w u) :
    Clears S w secret balance [k] ((withdrawFrom S secret bundle token amount w.client.config source).exec u) := by
  let first : World E := { u with drawn := u.drawn + 1 }
  obtain ⟨drawn, -, hdrawn, hdrawnTakes, -⟩ := h.drawn u htoken.1 h.parameterSet (.inl rfl)
  obtain ⟨batchId, j, hbatchId, hj, hbatchIdUtf8⟩ : ∃ batchId j,
      (if source.batchId = [] then pure [] else randomHex S : Run E ByteString).exec first =
        (.ok batchId, { u with drawn := j }) ∧
        u.drawn ≤ j ∧ Utf8.valid batchId = true := by
    split_ifs
    · exact ⟨[], u.drawn + 1, rfl, Nat.le_succ _, rfl⟩
    · exact ⟨_, u.drawn + 2, rfl, by omega, utf8_randomHex _⟩
  let second : World E := { u with drawn := j }
  let last : World E := { second with drawn := second.drawn + 1 }
  obtain ⟨fresh, _, hfresh, hfreshTakes, hfreshMade⟩ := h.drawn second htoken.1 h.parameterSet
    (w.client.config.successorOtsVersion_checked hsource.checked)
  have hremainder : Wallet.Takes token { fresh with batchId := source.batchId } := { hfreshTakes with batchId := hsource.batchId }
  have hrecipients : ∀ r ∈ [shadowOf drawn bundle batchId], r.Takes token :=
    List.forall_mem_singleton.mpr (hdrawnTakes.shadow hbundle hbatchIdUtf8)
  have hcovered : k ≤ spendable source.balance := by
    rw [hsource.balance_eq, spendable_held balance hbalance]
    simpa using hks.covered
  have hlast : Quiet S w last := .draw (hquiet.trans (quiet_drawn hj))
  rw [withdrawFrom, exec_bind_of_ok (by rw [hamount, Act.exec_ofExcept]), exec_bind_of_ok (exec_require_pos hcovered),
    exec_bind_of_ok hdrawn, exec_bind_of_ok hbatchId, exec_bind_of_ok hfresh]
  exact h.clears (u := last) hlast hsource hremainder.toEncoded
    (.initWithdrawBuffer hsource.toHolds hrecipients hremainder hfreshMade.owned rfl) hks hbalance htoken.2

end Operations

section Runs

variable {E : Type} {S : Setting E} {w : World E} {secret : Secret} {bundle : ByteString} {balance : Nat} {ks : List Int}

/-- The texts that the operation writes into its atoms. -/
def ValueOperation.Written (bundle : ByteString) : ValueOperation → Prop
  | transferToken bundleHash _ _ batchId _ => Utf8.valid bundleHash = true ∧ Utf8.valid batchId = true
  | transferTokens _ recipients => ∀ r ∈ recipients, Utf8.valid r.bundleHash = true ∧ Utf8.valid r.batchId = true
  | burnToken _ _ _ => True
  | depositBufferToken _ _ tradeRates => ∀ m ∈ tradeRates, Utf8.valid m.1 = true ∧ Utf8.valid m.2 = true
  | withdrawBufferToken _ _ _ => Utf8.valid bundle = true

/-- The source of the operation, a wallet that is given or that of the row it is told, holds the balance. -/
def ValueOperation.Backed (S : Setting E) (w : World E) (secret : Secret) (bundle : ByteString) (balance : Nat) :
    ValueOperation → Prop
  | withdrawBufferToken token _ (some given) => given.Funds S.hash secret token balance
  | op => ((told S w bundle op.token op.buffer).tokenWallet S.floatText).Backs S.hash w.client op.token balance

theorem World.Ready.withdrawBufferToken_clears (h : w.Ready S secret bundle) {token : ByteString} (htoken : Plain token)
    (hbundle : Utf8.valid bundle = true) {amount : BinaryFloat.Value} {k : Int} (hamount : toLongLong amount = .ok k)
    (hks : Molecule.Within balance [k]) (hbalance : balance < 2 ^ 53) {given : Option Wallet}
    (hbacked : (ValueOperation.withdrawBufferToken token amount given).Backed S w secret bundle balance) :
    Clears S w secret balance [k] ((withdrawBufferToken S token amount given).exec w) := by
  rw [withdrawBufferToken, exec_bind_of_ok (exec_ensureAuthenticated h.authenticated),
    exec_bind_of_ok (exec_secretValue h.secret_eq), exec_bind_of_ok (exec_getBundle h.bundle_eq),
    exec_bind_of_ok (Act.exec_get _)]
  cases given with
  | some given =>
    have hgiven : (bufferSource S secret bundle token w.client.config.mlKemParameterSet (some given)).exec w =
        (.ok given, w) := rfl
    rw [exec_bind_of_ok hgiven]
    exact h.withdrawFrom_clears htoken hbundle hamount hks hbalance hbacked .refl
  | none =>
    have hrow : ((told S w bundle token true).tokenWallet S.floatText).Backs S.hash w.client token balance := hbacked
    obtain ⟨ledger, p, v, hledger, hmade, hv, htakes⟩ :=
      h.ledger (u := w.asked S (.balance bundle token true)) rfl hrow htoken.1 h.parameterSet
    have hsource : Wallet.Funds S.hash secret token balance
        { ((told S w bundle token true).tokenWallet S.floatText).fund ledger with
          batchId := ((told S w bundle token true).tokenWallet S.floatText).batchId } := by
      rw [TokenWalletInfo.fund, hrow.balance_eq]
      exact htakes.funds hmade hv (Reply.writable_tokenWallet S.floatText _) (Reply.utf8_tokenWallet S.floatText _).2.2
    have hfound : (bufferSource S secret bundle token w.client.config.mlKemParameterSet none).exec w =
        (.ok { ((told S w bundle token true).tokenWallet S.floatText).fund ledger with
          batchId := ((told S w bundle token true).tokenWallet S.floatText).batchId },
            w.asked S (.balance bundle token true)) := by
      rw [bufferSource, exec_bind_of_ok (h.tells token true), exec_bind_of_ok (exec_require_pos hrow.found),
        exec_bind_of_ok hledger]
      rfl
    rw [exec_bind_of_ok hfound]
    exact h.withdrawFrom_clears htoken hbundle hamount hks hbalance hsource (.ask _ rfl .refl)

theorem amounts_singleton {amount : BinaryFloat.Value} (h : (toLongLong amount).map ([·]) = .ok ks) :
    ∃ k, toLongLong amount = .ok k ∧ ks = [k] := by
  obtain ⟨k, hk, rfl⟩ := Throws.map_ok h
  exact ⟨k, hk, rfl⟩

/-- A value operation within the balance of its source is sent if and only if that balance is an `int`. The molecule
passes the check, debits the whole balance, credits the amounts and returns the rest; otherwise the operation
throws, and nothing but queries was sent. -/
theorem valueOperation_clears (h : w.Ready S secret bundle) {op : ValueOperation} (htoken : Plain op.token)
    (hwritten : op.Written bundle) (hamounts : op.amounts = .ok ks) (hks : Molecule.Within balance ks)
    (hbalance : balance < 2 ^ 53) (hbacked : op.Backed S w secret bundle balance) :
    Clears S w secret balance ks ((op.run S).exec w) := by
  cases op with
  | transferToken bundleHash token amount batchId units =>
    obtain ⟨k, hk, rfl⟩ := amounts_singleton hamounts
    exact h.transferToken_clears htoken hwritten.1 hwritten.2 hk hks hbalance hbacked units
  | transferTokens token recipients => exact h.transferTokens_clears htoken hwritten hamounts hks hbalance hbacked
  | burnToken token amount units =>
    obtain ⟨k, hk, rfl⟩ := amounts_singleton hamounts
    exact h.burnToken_clears htoken hk hks hbalance hbacked units
  | depositBufferToken token amount tradeRates =>
    obtain ⟨k, hk, rfl⟩ := amounts_singleton hamounts
    exact h.depositBufferToken_clears htoken hk hks hbalance hwritten hbacked
  | withdrawBufferToken token amount given =>
    obtain ⟨k, hk, rfl⟩ := amounts_singleton hamounts
    exact h.withdrawBufferToken_clears htoken hwritten hk hks hbalance hbacked

/-- A transfer of five of seven tokens. -/
theorem valueOperation_clears_five :
    ∃ u m, Quiet scripted (loginWorld [balanceReply "7" "[]"]) u ∧
      (((ValueOperation.sampleTransfer 5).run scripted).exec (loginWorld [balanceReply "7" "[]"])).2 =
        u.proposed scripted sampleSecret m ∧
      Molecule.check (.constant 0) m = .ok () ∧ Molecule.Carry m.atoms [-7, 5, 2] := by
  have hreply : (balanceReply "7" "[]").tokenWallet integersOnly = sampleRow (ascii "7") [] := by decide +kernel
  have hbacked : (ValueOperation.sampleTransfer 5).Backed scripted (loginWorld [balanceReply "7" "[]"]) sampleSecret
      sampleBundle 7 := by
    change TokenWalletInfo.Backs (.constant 0) sampleClient (ascii "T") 7 ((balanceReply "7" "[]").tokenWallet integersOnly)
    rw [hreply]
    refine ⟨rfl, by decide, fun e he => ?_⟩
    cases (bindOwnWalletOtsVersion_sample (ascii "T")).symm.trans he
  have hclears : Clears scripted (loginWorld [balanceReply "7" "[]"]) sampleSecret 7 [5]
      (((ValueOperation.sampleTransfer 5).run scripted).exec (loginWorld [balanceReply "7" "[]"])) :=
    valueOperation_clears (ready_loginWorld [balanceReply "7" "[]"]) ⟨rfl, show ascii "T" ≠ ascii "USER" by decide⟩
      ⟨rfl, rfl⟩ (by decide) ⟨by decide, by decide⟩ (by norm_num) hbacked
  rwa [Clears, if_pos (by norm_num)] at hclears

end Runs

end KnishIO
