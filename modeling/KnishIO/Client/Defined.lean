import KnishIO.Client.Trace
import KnishIO.Molecule.ValueBuilders

open ByteString

namespace KnishIO

/-- An exception of the source, not an operation without meaning. -/
def Exception.IsThrown (e : Exception) : Prop := e.kind ≠ .undefinedBehavior

theorem Exception.isThrown_knishio (message : ByteString) : (knishio message).IsThrown := nofun

/-- The result does not come from an operation without meaning. -/
abbrev Defined {α : Type} (r : Throws α) : Prop := Act.Errs Exception.IsThrown r

/-- The computation runs into no operation without meaning. -/
abbrev Defines {σ α : Type} (x : Act Exception σ α) : Prop := Act.Raises Exception.IsThrown x

theorem Defined.ne {α : Type} {r : Throws α} (h : Defined r) : r ≠ .error .undefinedBehavior := by
  rintro rfl
  exact h _ rfl rfl

section Values

theorem defined_dumpJson (j : Json) : Defined (dumpJson j) := by
  unfold dumpJson
  split
  · exact .ok _
  · exact .error nofun

theorem defined_unitsMeta (units : List TokenUnit) : Defined (Molecule.unitsMeta units) := by
  unfold Molecule.unitsMeta
  split
  · exact .ok _
  · exact .map (defined_dumpJson _) _

theorem defined_tradeRatesMeta (tradeRates : Metas) : Defined (Molecule.tradeRatesMeta tradeRates) := by
  unfold Molecule.tradeRatesMeta
  split
  · exact .ok _
  · exact .map (defined_dumpJson _) _

theorem defined_conversion (name : String) (r : Except CInteger.ConversionError Int) : Defined (conversion name r) := by
  rcases r with (_ | _) | i
  · exact .error nofun
  · exact .error nofun
  · exact .ok i

theorem defined_fromHexPairs (s : ByteString) : Defined (fromHexPairs s) := by
  fun_induction fromHexPairs s with
  | case1 => exact .error nofun
  | case2 => exact .error nofun
  | case3 a b rest ha hb ih => exact .map ih _
  | case4 => exact .ok _

theorem defined_hexToBase64 (hex : ByteString) : Defined (hexToBase64 hex) := by
  unfold hexToBase64 fromHexString
  refine .map ?_ _
  split
  · exact .error nofun
  · exact defined_fromHexPairs hex

end Values

section Wallets

variable (H : Shake256)

theorem defined_checkedOtsVersion (version : Int) : Defined (Wallet.checkedOtsVersion version) := by
  unfold Wallet.checkedOtsVersion
  split
  · exact .error nofun
  · exact .ok _

theorem defined_generateWalletKey (secret token position : ByteString) (version : Int) :
    Defined (Wallet.generateWalletKey H secret token position version) := by
  have hversion := defined_checkedOtsVersion version
  unfold Wallet.generateWalletKey
  split
  next e he => exact .error (hversion e he)
  next =>
    split
    · exact .error nofun
    split
    · exact .error nofun
    split
    · exact .error nofun
    · exact .ok _

theorem defined_detectOtsVersion (secret token position address : ByteString) (preferred : Int) :
    Defined (Wallet.detectOtsVersion H secret token position address preferred) := by
  unfold Wallet.detectOtsVersion
  refine .bind (defined_checkedOtsVersion preferred) fun first => ?_
  dsimp only
  split
  · exact .ok _
  refine .bind (.map (defined_generateWalletKey H _ _ _ _) _) fun address => ?_
  split
  · exact .ok _
  refine .bind (.map (defined_generateWalletKey H _ _ _ _) _) fun address => ?_
  split
  · exact .ok _
  · exact .ok _

theorem defined_wallet (K : MlKem) (secret token position : ByteString) (mlkemParameterSet otsVersion : Int) :
    Defined (Wallet.new H K secret token position mlkemParameterSet otsVersion) := by
  unfold Wallet.new
  refine .bind (defined_checkedOtsVersion _) fun version => .bind (defined_generateWalletKey H _ _ _ _) fun key => ?_
  refine .bind ?_ fun _ => .ok _
  unfold Wallet.deriveMlKemKeypair
  split
  · exact .error nofun
  split
  · exact .ok _
  · exact .error nofun

end Wallets

section Molecules

variable (H : Shake256)

theorem defined_hashAtomsBase17 (atoms : List Atom) : Defined (Atom.hashAtomsBase17 H atoms) := by
  rw [Atom.hashAtomsBase17_eq]
  unfold Atom.hashAtoms
  refine .map ?_ _
  split
  · exact .map (defined_dumpJson _) _
  · exact .ok _

theorem defined_oneTimeSignature (key molecularHash : ByteString) (compressed : Bool) :
    Defined (Molecule.oneTimeSignature H key molecularHash compressed) := by
  unfold Molecule.oneTimeSignature
  dsimp only
  split
  · exact defined_hexToBase64 _
  · exact .ok _

theorem defines_sign (secret : ByteString) (anonymous compressed : Bool) :
    Defines (Molecule.sign H secret anonymous compressed) := by
  refine .bind .get fun m => ?_
  split
  · exact .throw nofun
  -- what follows the bundle, which an anonymous molecule does not get
  have hrest (front : Atom) (rest : List Atom) (hash : ByteString) : Defines (do
      let key ← Act.ofExcept (Wallet.generateWalletKey H secret front.token front.position (← get).signingOtsVersion)
      let signatureFragments ← Act.ofExcept (Molecule.oneTimeSignature H key hash compressed)
      let count := (front :: rest).length
      let chunkedSignature := chunkSubstr signatureFragments ((signatureFragments.length + count - 1) / count)
      modify fun m => { m with atoms := Molecule.assignFragments m.atoms chunkedSignature }
      return ((front :: rest).take chunkedSignature.length).getLast?.elim [] (·.position) :
      Act Exception Molecule ByteString) :=
    .bind .get fun m => .bind (.ofExcept (defined_generateWalletKey H _ _ _ _)) fun key =>
      .bind (.ofExcept (defined_oneTimeSignature H _ _ _)) fun signature => .bind (.modify _) fun _ => .pure _
  cases anonymous with
  | false =>
    refine .bind (.modify _) fun _ => .bind (.ofExcept (defined_hashAtomsBase17 H _)) fun hash => .bind (.modify _) fun _ => ?_
    dsimp only
    split
    · exact .throw nofun
    · exact hrest _ _ hash
  | true =>
    refine .bind (.ofExcept (defined_hashAtomsBase17 H _)) fun hash => .bind (.modify _) fun _ => ?_
    dsimp only
    split
    · exact .throw nofun
    · exact hrest _ _ hash

theorem defined_verifyOts (m : Molecule) : Defined (Molecule.verifyOts H m) := by
  unfold Molecule.verifyOts
  split
  · exact .error nofun
  split
  · exact .error nofun
  have hdecode : Defined (Molecule.decodeOts m.carriedOts) := by
    unfold Molecule.decodeOts
    split
    · exact .ok _
    split
    · exact .error nofun
    split
    · exact .ok _
    · exact .error nofun
  split
  next e he => exact .error (hdecode e he)
  next =>
    split
    · exact .error nofun
    · exact .ok _

theorem defined_check (m : Molecule) : Defined (Molecule.check H m) := by
  have hhash : Defined (Molecule.verifyMolecularHash H m) := by
    unfold Molecule.verifyMolecularHash
    split
    · exact .map (defined_hashAtomsBase17 H _) _
    · exact .ok _
  have hots := defined_verifyOts H m
  unfold Molecule.check
  split
  · exact .error nofun
  split
  · exact .error nofun
  split
  next e he => exact .error (hhash e he)
  · exact .error nofun
  split
  next e he => exact .error (hots e he)
  next =>
    split
    · exact .ok _
    · exact .error nofun

theorem defined_toJson (m : Molecule) : Defined m.toJson := by
  refine .bind ?_ fun _ => defined_dumpJson _
  unfold Molecule.sourceMember
  split
  · exact .ok _
  refine .map ?_ _
  unfold Molecule.sourceBalance
  split
  · exact .ok _
  · exact defined_conversion _ _

theorem isThrown_recast {e : Exception} (h : e.IsThrown) : (recast e).IsThrown := by
  unfold recast
  split
  · exact nofun
  · exact h

end Molecules

section Builders

variable {clock : Nat → Int64} {source recipient buffer remainder : Wallet} {recipients : List Wallet} {amount : Int}
  {amounts : List Int} {tradeRates : Metas}

theorem defined_signed {width : Nat} {i : Int} (hlow : -2 ^ (width - 1) ≤ i) (hhigh : i < 2 ^ (width - 1)) :
    Defined (signed width i) := by
  rw [signed_ok.mpr ⟨rfl, hlow, hhigh⟩]
  exact .ok _

/-- What starts a list of numbers that are not negative is at most their sum. -/
theorem sum_prefix_bounds {ks front : List Int} (hks : ∀ k ∈ ks, 0 ≤ k) (hfront : front <+: ks) :
    0 ≤ front.sum ∧ front.sum ≤ ks.sum := by
  obtain ⟨rest, rfl⟩ := hfront
  have hrest : 0 ≤ rest.sum := List.sum_nonneg fun k hk => hks k (List.mem_append_right _ hk)
  refine ⟨List.sum_nonneg fun k hk => hks k (List.mem_append_left _ hk), ?_⟩
  rw [List.sum_append]
  omega

theorem spendable_of_stoll {balance : ByteString} {k : Int} (h : stoll balance = .ok k) : spendable balance = k := by
  rw [spendable, conversion_ok.mp h]

theorem defined_credits {token : Wallet → ByteString} {recipientMeta : Wallet → Throws Metas}
    (hmeta : ∀ w, Defined (recipientMeta w)) (hlength : amounts.length = recipients.length) (hamounts : ∀ k ∈ amounts, 0 ≤ k)
    (hsum : amounts.sum < 2 ^ 63) (index : Nat) :
    Defined (Molecule.credits clock token recipientMeta index 0 recipients (amounts.map Decimal.ofInt)) := by
  intro e he
  have hrange : ∀ k ∈ amounts, -2 ^ 63 ≤ k ∧ k < 2 ^ 63 := by
    intro k hk
    have hle := List.single_le_sum hamounts k hk
    have hpos := hamounts k hk
    omega
  obtain ⟨w, -, hw⟩ | ⟨front, hfront, hout⟩ := Molecule.credits_error hlength hrange he
  · exact hmeta w e hw
  · obtain ⟨hlow, hhigh⟩ := sum_prefix_bounds hamounts hfront
    omega

/-- With a guarded amount that is not negative no arithmetic of `initValue` overflows. -/
theorem defined_initValue (hamount : 0 ≤ amount) (hguard : amount ≤ spendable source.balance) (m : Molecule) :
    Defined ((Molecule.initValue clock source recipient remainder (Decimal.ofInt amount)).run m) := by
  rw [Molecule.run_initValue]
  refine .bind (defined_unitsMeta _) fun _ => .bind (defined_unitsMeta _) fun _ => .bind (defined_unitsMeta _) fun _ => ?_
  refine .bind_of_ok (defined_conversion _ _) fun balance hbalance => ?_
  refine .bind_of_ok (defined_conversion _ _) fun spent hspent => ?_
  obtain ⟨hstoll, hlow, hhigh⟩ := stoll_of_stoi hbalance
  rw [spendable_of_stoll hstoll] at hguard
  obtain rfl := stoi_ofInt_ok hspent
  exact .bind (defined_signed (by norm_num; omega) (by norm_num; omega)) fun _ => .ok _

theorem defined_initValues (hlength : amounts.length = recipients.length) (hamounts : ∀ k ∈ amounts, 0 ≤ k)
    (hsum : amounts.sum < 2 ^ 63) (hguard : amounts.sum ≤ spendable source.balance) (m : Molecule) :
    Defined ((Molecule.initValues clock source recipients (amounts.map Decimal.ofInt) remainder).run m) := by
  rw [Molecule.run_initValues]
  refine .bind (defined_unitsMeta _) fun _ => ?_
  refine .bind_of_ok (defined_credits (fun _ => defined_unitsMeta _) hlength hamounts hsum _) fun r hr => ?_
  refine .bind (defined_unitsMeta _) fun _ => .bind_of_ok (defined_conversion _ _) fun balance hbalance => ?_
  obtain ⟨htotal, -⟩ := Molecule.credits_total hlength (by norm_num) hr
  have hnonneg := List.sum_nonneg hamounts
  have hrange := stoll_range hbalance
  rw [spendable_of_stoll hbalance] at hguard
  exact .bind (defined_signed (by norm_num; omega) (by norm_num; omega)) fun _ => .ok _

theorem defined_initDepositBuffer (hamount : 0 ≤ amount) (hguard : amount ≤ spendable source.balance) (m : Molecule) :
    Defined ((Molecule.initDepositBuffer clock source buffer remainder (Decimal.ofInt amount) tradeRates).run m) := by
  rw [Molecule.run_initDepositBuffer]
  refine .bind (defined_tradeRatesMeta _) fun _ => .bind_of_ok (defined_conversion _ _) fun balance hbalance => ?_
  refine .bind_of_ok (defined_conversion _ _) fun deposited hdeposited => ?_
  have hrange := stoll_range hbalance
  rw [spendable_of_stoll hbalance] at hguard
  obtain rfl := stoll_ofInt_ok hdeposited
  exact .bind (defined_signed (by norm_num; omega) (by norm_num; omega)) fun _ => .ok _

theorem defined_initWithdrawBuffer (hlength : amounts.length = recipients.length) (hamounts : ∀ k ∈ amounts, 0 ≤ k)
    (hsum : amounts.sum < 2 ^ 63) (hguard : amounts.sum ≤ spendable source.balance) (m : Molecule) :
    Defined ((Molecule.initWithdrawBuffer clock source recipients (amounts.map Decimal.ofInt) remainder).run m) := by
  rw [Molecule.run_initWithdrawBuffer]
  refine .bind (defined_unitsMeta _) fun _ => ?_
  refine .bind_of_ok (defined_credits (fun _ => .ok _) hlength hamounts hsum _) fun r hr => ?_
  refine .bind_of_ok (defined_conversion _ _) fun balance hbalance => ?_
  obtain ⟨htotal, -⟩ := Molecule.credits_total hlength (by norm_num) hr
  have hnonneg := List.sum_nonneg hamounts
  have hrange := stoll_range hbalance
  rw [spendable_of_stoll hbalance] at hguard
  exact .bind (defined_signed (by norm_num; omega) (by norm_num; omega)) fun _ => .ok _

end Builders

section Calls

variable {E : Type} {S : Setting E}

theorem defines_exchange (request : Request) (record : Reply → Event) : Defines (exchange S request record) := by
  refine .bind .get fun w => .bind (.ofExcept ?_) fun _ => .bind (.set _) fun _ => .pure _
  unfold Transport.permit
  split
  · exact .ok _
  split
  · exact .error nofun
  split
  · exact .error nofun
  · exact .ok _

theorem defines_submitMolecule (m : Molecule) : Defines (submitMolecule S m) := by
  refine .bind .get fun w => ?_
  split
  · exact .throw nofun
  refine .bind (.ofExcept ?_) fun signed => .bind (.ofExcept ?_) fun _ => .bind (.ofExcept (defined_toJson _)) fun _ =>
    .bind (defines_exchange _ _) fun reply => .ofExcept ?_
  · exact (defines_sign S.hash _ _ _).run _
  · exact .mapError (defined_check _ _) fun e he => isThrown_recast he
  · unfold Reply.proposal
    split
    · exact .ok _
    refine .map ?_ _
    unfold parseJson
    split
    · exact .ok _
    · exact .error nofun

theorem defines_newWallet (secret : Secret) (token position : ByteString) (mlkemParameterSet otsVersion : Int) :
    Defines (newWallet S secret token position mlkemParameterSet otsVersion) := by
  refine .bind ?_ fun _ => .ofExcept (defined_wallet _ _ _ _ _ _ _)
  split
  · exact fun _ => .ok _
  · exact .pure _

theorem defines_secretValue : Defines (secretValue : Run E Secret) := by
  refine .bind .get fun w => ?_
  split
  · exact .pure _
  · exact .throw nofun

theorem defines_getBundle : Defines (getBundle : Run E ByteString) := by
  refine .bind .get fun w => ?_
  split
  · exact .pure _
  · exact .throw nofun

theorem defines_ensureAuthenticated : Defines (ensureAuthenticated : Run E Unit) :=
  .bind .get fun _ => .require nofun

theorem defines_resolveTokenWallet (bundle token : ByteString) (buffer : Bool) :
    Defines (resolveTokenWallet S bundle token buffer) := by
  refine .tryCatch fun e => ?_
  split
  next hkind => exact .throw fun h => by cases hkind.symm.trans h
  next => exact .pure _

theorem defines_ledgerWallet (secret : Secret) (token : ByteString) (mlKemParameterSet : Int) (info : TokenWalletInfo) :
    Defines (ledgerWallet S secret token mlKemParameterSet info) := by
  refine .bind .get fun w => .bind (.ofExcept ?_) fun _ => defines_newWallet _ _ _ _ _
  unfold Client.bindOwnWalletOtsVersion
  split
  · exact .ok _
  split
  · exact .error nofun
  next secret hsecret =>
    have hdetect := defined_detectOtsVersion S.hash secret.bytes token info.position info.address
      w.client.config.otsVersion
    split
    next e he => exact .error (hdetect e he)
    · exact .ok _
    · exact .error nofun

theorem defines_recipientShadows (secret : Secret) (token : ByteString) (recipients : List TransferRecipient) :
    Defines (recipientShadows S secret token recipients) := by
  induction recipients with
  | nil => exact .pure _
  | cons r recipients ih => exact .bind (defines_newWallet _ _ _ _ _) fun _ => .bind ih fun _ => .pure _

end Calls

end KnishIO
