import KnishIO.Client.Balances
import KnishIO.Client.Units

open ByteString

namespace KnishIO

namespace Molecule

section Builder

variable {clock : Nat → Int64} {drawn : ByteString × ByteString} {token : ByteString} {balance : Nat}
  {source recipient remainder : Wallet} {ids : List ByteString} {newId : ByteString} {m built : Molecule} {atoms : List Atom}

theorem valid_fusedUnitJson (F : Json.FloatText) {fused : List TokenUnit} (hnewId : Utf8.valid newId = true)
    (hfused : Writable fused) : (Json.arr [fusedUnitJson newId fused]).Valid F := by
  have hunits : (Json.arr (fused.map Wallet.unitTriple)).Valid F :=
    Json.valid_arr (List.forall_mem_map.mpr fun u hu => valid_unitTriple F (hfused u hu))
  have hkey : Utf8.valid (ascii "fusedTokenUnits") = true := by decide
  exact ⟨⟨hnewId, hnewId, ⟨List.pairwise_singleton _ _, hkey, hunits, trivial⟩, trivial⟩, trivial⟩

theorem writable_remaining (ids : List ByteString) (hunits : Writable source.tokenUnits) :
    Writable (Selection.remaining (·.id) source.tokenUnits [ids]) :=
  fun u hu => hunits u (Selection.sublist_remaining.subset hu)

/-- An accepted fusion of units that can be written returns, whatever the balance. -/
theorem Accepts.returns (clock : Nat → Int64) (drawn : ByteString × ByteString) (recipient remainder : Wallet) (m : Molecule)
    (h : Accepts source ids newId) (hsource : source.Holds token balance) (hids : ids.length < 2 ^ 53)
    (hbalance : balance < 2 ^ 53) :
    ∃ text sentMeta burnedMeta keptMeta,
      dumpJson (.arr [fusedUnitJson newId (Selection.pick (·.id) source.tokenUnits ids)]) = .ok text ∧
      (∀ metas ∈ [sentMeta, burnedMeta, keptMeta], ∀ m ∈ metas, Utf8.valid m.1 = true ∧ Utf8.valid m.2 = true) ∧
      (initTokenFusion clock drawn source recipient remainder ids newId).run m =
        let built := m.appended (fusionAtoms clock drawn source recipient remainder ids.length sentMeta burnedMeta keptMeta text
          (balance - ids.length))
        .ok (built.atoms, built) := by
  have hheld := stoll_held hsource hbalance
  obtain ⟨text, htext, hrun⟩ := run_initTokenFusion_accepted clock drawn recipient remainder m h hheld
  have hselected : Writable (Selection.select (·.id) source.tokenUnits ids) :=
    fun u hu => hsource.units u (List.mem_filter.mp hu).1
  have hdropped : Writable (Selection.pick (·.id) source.tokenUnits ids).dropLast :=
    fun u hu => hsource.units u (Selection.pick_subset (List.mem_of_mem_dropLast hu))
  obtain ⟨sentMeta, hsent, hsentUtf8⟩ := unitsMeta_written hselected
  obtain ⟨burnedMeta, hburned, hburnedUtf8⟩ := unitsMeta_written hdropped
  obtain ⟨keptMeta, hkept, hkeptUtf8⟩ := unitsMeta_written (writable_remaining ids hsource.units)
  have hsigned : KnishIO.signed 64 ((balance : Int) - ids.length) = .ok ((balance : Int) - ids.length) :=
    signed_ok.mpr ⟨rfl, by omega, by omega⟩
  refine ⟨text, sentMeta, burnedMeta, keptMeta, htext, ?_, ?_⟩
  · simp only [List.forall_mem_cons, List.not_mem_nil, false_implies, implies_true, and_true]
    exact ⟨hsentUtf8, hburnedUtf8, hkeptUtf8⟩
  · rw [hrun, Throws.bind_of_ok hsent, Throws.bind_of_ok hburned, Throws.bind_of_ok hsigned, Throws.bind_of_ok hkept]
    rfl

/-- Such a fusion passes the balance on. -/
theorem Accepts.pays (clock : Nat → Int64) (drawn : ByteString × ByteString) (h : Accepts source ids newId)
    (hsource : source.Holds token balance) (hrecipient : recipient.Encoded)
    (howned : recipient.bundle ≠ []) (hremainder : remainder.Encoded)
    (hdrawn : Utf8.valid drawn.1 = true ∧ Utf8.valid drawn.2 = true) (hids : ids.length < 2 ^ 53) (hbalance : balance < 2 ^ 53)
    (hfresh : m.atoms = []) :
    ∃ atoms built, (initTokenFusion clock drawn source recipient remainder ids newId).run m = .ok (atoms, built) ∧
      Pays token balance [ids.length - 1, 1] source m built := by
  obtain ⟨text, sentMeta, burnedMeta, keptMeta, htext, hmetas, hrun⟩ :=
    h.returns clock drawn recipient remainder m hsource hids hbalance
  simp only [List.forall_mem_cons, List.not_mem_nil, false_implies, implies_true, and_true] at hmetas
  obtain ⟨hsentUtf8, hburnedUtf8, hkeptUtf8⟩ := hmetas
  have htextUtf8 : Utf8.valid text = true := by
    obtain ⟨text', htext', hutf8⟩ := utf8_dumpJson (F := integersOnly)
      (valid_fusedUnitJson integersOnly h.utf8 h.writable)
    obtain rfl := Except.ok.inj (htext.symm.trans htext')
    exact hutf8
  have hbatchId (batchId : ByteString) (hvalid : Utf8.valid batchId = true) :
      Utf8.valid (if source.batchId = [] then [] else batchId) = true := by
    split_ifs
    · rfl
    · exact hvalid
  refine ⟨_, _, hrun, appended_appended hfresh _, ?_, ?_, ?_⟩
  · rw [atoms_appended hfresh]
    simp only [fusionAtoms, List.forall_mem_cons, List.not_mem_nil, false_implies, implies_true, and_true]
    refine ⟨fresh_debitAtom _ hsource (by decide) rfl rfl hsentUtf8, ⟨?_, rfl⟩, ⟨?_, rfl⟩, ⟨?_, rfl⟩⟩
    · exact Atom.wireUtf8_new _ _ rfl rfl (by decide) hsource.token (Atom.utf8_ofInt _) (hbatchId _ hdrawn.1) (by decide)
        (by decide) hburnedUtf8
    · exact Atom.wireUtf8_new _ _ hrecipient.position hrecipient.address (by decide) hsource.token (by decide)
        (hbatchId _ hdrawn.2) (by decide) hrecipient.bundle (by simpa using ⟨by decide, htextUtf8⟩)
    · exact Atom.wireUtf8_new _ _ hremainder.position hremainder.address (by decide) hsource.token (Atom.utf8_ofInt _)
        hsource.batchId (by decide) hsource.bundle hkeptUtf8
  · rw [atoms_appended hfresh]
    exact ⟨_, _, rfl, hsource.token_eq, rfl, rfl⟩
  · exact conserved_of_spends (b := .initTokenFusion drawn source recipient remainder ids newId)
      (.initTokenFusion hsource.token_eq howned hsource.balance_eq) hfresh hrun

end Builder

section Signed

variable {H : Shake256} {source : Wallet} {ids : List ByteString} {newId : ByteString} {fused : List TokenUnit}
  {debit burn fusion rest : Atom} {built m : Molecule}

theorem conserves_unsigned : Conserves source ids newId fused debit.unsigned burn.unsigned fusion.unsigned rest.unsigned ↔
    Conserves source ids newId fused debit burn fusion rest :=
  ⟨fun h => ⟨h.isotopes, h.named, h.owned, h.sent, h.burnt, h.burntValue, h.listed, h.newValue, h.kept, h.keptValue, h.fresh⟩,
    fun h => ⟨h.isotopes, h.named, h.owned, h.sent, h.burnt, h.burntValue, h.listed, h.newValue, h.kept, h.keptValue, h.fresh⟩⟩

/-- The signed atoms conserve the units as those that were built. -/
theorem Completes.conserves (h : built.Completes H m) (hatoms : built.atoms = [debit, burn, fusion, rest])
    (hconserves : Conserves source ids newId fused debit burn fusion rest) :
    ∃ debit' burn' fusion' rest', m.atoms = [debit', burn', fusion', rest'] ∧
      Conserves source ids newId fused debit' burn' fusion' rest' := by
  have hsame := h.atoms
  rw [hatoms] at hsame
  obtain ⟨debit', others, hm, hdebit, hsame⟩ := List.map_eq_cons_iff.mp hsame
  obtain ⟨burn', others, rfl, hburn, hsame⟩ := List.map_eq_cons_iff.mp hsame
  obtain ⟨fusion', others, rfl, hfusion, hsame⟩ := List.map_eq_cons_iff.mp hsame
  obtain ⟨rest', others, rfl, hrest, hsame⟩ := List.map_eq_cons_iff.mp hsame
  obtain rfl := List.map_eq_nil_iff.mp hsame
  refine ⟨debit', burn', fusion', rest', hm, ?_⟩
  rw [← conserves_unsigned, hdebit, hburn, hfusion, hrest, conserves_unsigned]
  exact hconserves

end Signed

section References

theorem bundleReference_of_foldlM {atoms : List Atom} {s r : BinaryFloat.Value × Bool} (h : atoms.foldlM crossStep s = some r) :
    ∀ a ∈ atoms, (isB a || isF a) = true → bundleReference a = true := by
  induction atoms generalizing s with
  | nil => simp
  | cons a atoms ih =>
    rw [List.foldlM_cons] at h
    obtain ⟨t, ht, h⟩ := Option.bind_eq_some_iff.mp h
    refine List.forall_mem_cons.mpr ⟨fun hcross => ?_, ih h⟩
    by_contra hreference
    simp [crossStep, hcross, hreference] at ht

/-- Every B and F atom of an accepted molecule references a bundle. -/
theorem bundleReference_of_accepted {m : Molecule} (h : verifyTokenIsotopeV m = .ok true) :
    ∀ a ∈ m.atoms, (isB a || isF a) = true → bundleReference a = true := by
  intro a ha hcross
  have hany : (m.atoms.any fun a => isB a || isF a) = true := List.any_eq_true.mpr ⟨a, ha, hcross⟩
  rw [verifyTokenIsotopeV, hany, if_pos rfl] at h
  split_ifs at h
  · cases h
  cases hfold : m.atoms.foldlM crossStep (.finite 0, false) with
  | none => simp [verifyCrossIsotopeConservation, hfold] at h
  | some r => exact bundleReference_of_foldlM hfold a ha hcross

/-- A new unit without a recipient does not pass the check. -/
theorem not_check_of_unaddressed {H : Shake256} {clock : Nat → Int64} {drawn : ByteString × ByteString}
    {source recipient remainder : Wallet} {ids : List ByteString} {newId secret position : ByteString} {m built signed : Molecule}
    {atoms : List Atom} {anonymous compressed : Bool} (hunaddressed : recipient.bundle = []) (hfresh : m.atoms = [])
    (hrun : (initTokenFusion clock drawn source recipient remainder ids newId).run m = .ok (atoms, built))
    (hsign : (sign H secret anonymous compressed).exec built = (.ok position, signed)) : check H signed ≠ .ok () := by
  intro hcheck
  obtain ⟨balance, sentMeta, burnedMeta, keptMeta, newUnitJson, -, rfl⟩ := initTokenFusion_ok hrun
  obtain ⟨-, -, -, -, hvalid⟩ := check_ok_iff.mp hcheck
  have haccepted : verifyTokenIsotopeV signed = .ok true := by
    rw [tokenValid] at hvalid
    cases hverdict : verifyTokenIsotopeV signed with
    | ok valid =>
      rw [hverdict] at hvalid
      exact congrArg Except.ok hvalid
    | error e =>
      rw [hverdict] at hvalid
      cases hvalid
  have hne : (m.appended (fusionAtoms clock drawn source recipient remainder ids.length sentMeta burnedMeta keptMeta newUnitJson
      (balance - ids.length))).atoms ≠ [] := by
    rw [atoms_appended hfresh]
    exact List.cons_ne_nil _ _
  obtain ⟨hash, -, hsame⟩ := verifyTokenIsotopeV_sign hne hsign
  have hreferences := bundleReference_of_accepted (hsame.symm.trans haccepted)
  dsimp only at hreferences
  rw [atoms_appended hfresh] at hreferences
  have hfusion := hreferences _ (.tail _ (.tail _ (.head _))) rfl
  simp [bundleReference, Atom.new, hunaddressed] at hfusion

end References

end Molecule

section Fusions

variable {E : Type} {S : Setting E} {w : World E} {secret : Secret} {bundle token : ByteString} {balance : Nat}
  {ids : List ByteString} {newId bundleHash : ByteString}

/-- What a fusion asks of the units of the row, and of the caller. -/
structure Fusible (units : List TokenUnit) (ids : List ByteString) (newId bundleHash : ByteString) : Prop where
  several : 2 ≤ ids.length
  known : ids ⊆ units.map (·.id)
  fresh : newId ∉ units.map (·.id)
  utf8 : Utf8.valid newId = true
  addressed : bundleHash ≠ []

/-- The wallets of a fusion, drawn or derived before the molecule is built. -/
structure FusionWallets (S : Setting E) (w : World E) (secret : Secret) (token : ByteString) (balance : Nat)
    (units : List TokenUnit) (bundleHash : ByteString) (u : World E) (source recipient remainder : Wallet)
    (drawn : ByteString × ByteString) : Prop where
  quiet : Quiet S w u
  funds : source.Funds S.hash secret token balance
  units_eq : source.tokenUnits = units
  takes : recipient.Takes token
  addressed : recipient.bundle = [] ↔ bundleHash = []
  encoded : remainder.Encoded
  batchIds : Utf8.valid drawn.1 = true ∧ Utf8.valid drawn.2 = true

theorem exec_fusionBatchIds (S : Setting E) (source : Wallet) (u : World E) :
    ∃ drawn j, (fusionBatchIds S source).exec u = (.ok drawn, { u with drawn := j }) ∧ u.drawn ≤ j ∧
      Utf8.valid drawn.1 = true ∧ Utf8.valid drawn.2 = true := by
  rw [fusionBatchIds]
  split_ifs
  · exact ⟨([], []), u.drawn, rfl, le_rfl, rfl, rfl⟩
  · exact ⟨_, u.drawn + 2, rfl, by omega, utf8_randomHex _, utf8_randomHex _⟩

/-- Up to the molecule a fusion of a row of the client throws nothing. -/
theorem World.Ready.exec_fuseToken (h : w.Ready S secret bundle) (hbundle : bundle ≠ []) (htoken : Utf8.valid token = true)
    (hbundleHash : Utf8.valid bundleHash = true)
    (hrow : ((told S w bundle token false).tokenWallet S.floatText).Backs S.hash w.client token balance) :
    ∃ u source recipient remainder drawn,
      FusionWallets S w secret token balance
        ((told S w bundle token false).tokenWallet S.floatText).tokenUnits bundleHash u source recipient remainder drawn ∧
      ∀ ids newId, (fuseToken S bundleHash token newId ids).exec w =
        (assemble S (w.client.config.cellSlug.getD []) source remainder
          (.initTokenFusion drawn source recipient remainder ids newId) >>= fun m => submitMolecule S m).exec u := by
  let asked := w.asked S (.balance bundle token false)
  let first : World E := { asked with drawn := asked.drawn + 1 }
  let second : World E := { first with drawn := first.drawn + 1 }
  obtain ⟨ledger, p, v, hledger, hmade, hv, htakes⟩ := h.ledger (u := asked) rfl hrow htoken h.parameterSet
  let source : Wallet := { ((told S w bundle token false).tokenWallet S.floatText).fund ledger with
    batchId := ((told S w bundle token false).tokenWallet S.floatText).batchId }
  have hsource : source.Funds S.hash secret token balance := by
    dsimp only [source]
    rw [TokenWalletInfo.fund, hrow.balance_eq]
    exact htakes.funds hmade hv (Reply.writable_tokenWallet S.floatText _) (Reply.utf8_tokenWallet S.floatText _).2.2
  obtain ⟨own, _, hown, hownTakes, hownMade⟩ := h.drawn asked htoken h.parameterSet w.client.config.otsVersion_checked
  obtain ⟨remainder, _, hremainder, hremainderTakes, -⟩ := h.drawn first htoken h.parameterSet
    (w.client.config.successorOtsVersion_checked hsource.checked)
  obtain ⟨drawn, j, hdrawn, hj, hdrawnUtf8⟩ := exec_fusionBatchIds S source second
  refine ⟨{ second with drawn := j }, source, if bundleHash ≠ bundle then shadowOf own bundleHash own.batchId else own, remainder,
    drawn, ⟨?_, hsource, rfl, ?_, ?_, hremainderTakes.toEncoded, hdrawnUtf8⟩, fun ids newId => ?_⟩
  · exact (Quiet.draw (.draw (.ask _ rfl .refl))).trans (quiet_drawn hj)
  · split_ifs
    · exact hownTakes.shadow hbundleHash hownTakes.batchId
    · exact hownTakes
  · split_ifs with hother
    · rfl
    · rw [not_ne_iff.mp hother]
      exact iff_of_false hownMade.owned hbundle
  · rw [fuseToken, exec_bind_of_ok (exec_ensureAuthenticated h.authenticated), exec_bind_of_ok (exec_secretValue h.secret_eq),
      exec_bind_of_ok (exec_getBundle h.bundle_eq), exec_bind_of_ok (Act.exec_get _)]
    dsimp only
    rw [exec_bind_of_ok (h.tells token false), exec_bind_of_ok (exec_require_pos hrow.found), exec_bind_of_ok hledger,
      exec_bind_of_ok hown, exec_bind_of_ok hremainder, exec_bind_of_ok hdrawn]

/-- A molecule that does not pass the check once it is signed is not sent. -/
theorem submitMolecule_unchecked {u : World E} {m : Molecule} (hsecret : u.client.secret = some secret)
    (hcheck : ∀ position signed, (Molecule.sign S.hash secret.bytes).exec m = (.ok position, signed) →
      Molecule.check S.hash signed ≠ .ok ()) : ∃ e, (submitMolecule S m).exec u = (.error e, u) := by
  rw [submitMolecule, exec_bind_of_ok (Act.exec_get u)]
  simp only [hsecret]
  cases hsign : (Molecule.sign S.hash secret.bytes).run m with
  | error e => exact ⟨e, rfl⟩
  | ok r =>
    obtain ⟨position, signed⟩ := r
    rw [exec_bind_of_ok (Act.exec_ofExcept _ _)]
    cases hverdict : Molecule.check S.hash signed with
    | ok _ => exact absurd hverdict (hcheck position signed (Act.run_eq_ok.mp hsign))
    | error e => exact ⟨recast e, by simp [Except.mapError]⟩

/-- Nothing but the units and the new id is refused by the builder. -/
theorem accepts_iff {source : Wallet} (hsource : source.Holds token balance) (hbalance : balance < 2 ^ 53) :
    Molecule.Accepts source ids newId ↔ 2 ≤ ids.length ∧ ids ⊆ source.tokenUnits.map (·.id) ∧
      newId ∉ source.tokenUnits.map (·.id) ∧ Utf8.valid newId = true :=
  ⟨fun h => ⟨h.several, h.known, h.fresh, h.utf8⟩, fun ⟨hseveral, hknown, hfresh, hutf8⟩ =>
    ⟨hseveral, hknown, hfresh, hutf8, fun u hu => hsource.units u (Selection.pick_subset hu), _,
      Molecule.stoll_held hsource hbalance⟩⟩

/-- The fusion sends one molecule that passes the check and passes the balance on, or, where the balance is no
`int`, none. Of distinct units that are the balance, the named ones are given up, burnt but for one and listed by
the new one, and the others are kept. -/
def Fuses (S : Setting E) (w : World E) (secret : Secret) (balance : Nat) (units : List TokenUnit) (ids : List ByteString)
    (newId : ByteString) (r : Throws Response × World E) : Prop :=
  if balance < 2 ^ 31 then
    ∃ u m, Quiet S w u ∧ r.2 = u.proposed S secret m ∧ Molecule.check S.hash m = .ok () ∧
      Molecule.Carry m.atoms [-(balance : Int), ids.length - 1, 1, balance - ids.length] ∧
      ((units.map (·.id)).Nodup → ids.Nodup → balance = units.length →
        ∃ source fused debit burn fusion rest, source.tokenUnits = units ∧ m.atoms = [debit, burn, fusion, rest] ∧
          Molecule.Conserves source ids newId fused debit burn fusion rest)
  else Withheld S w r

theorem FusionWallets.fuses {units : List TokenUnit} {u : World E} {source recipient remainder : Wallet}
    {drawn : ByteString × ByteString}
    (hwallets : FusionWallets S w secret token balance units bundleHash u source recipient remainder drawn)
    (h : w.Ready S secret bundle) (htoken : token ≠ ascii "USER") (hids : ids.length < 2 ^ 53) (hbalance : balance < 2 ^ 53)
    (hfusible : Fusible units ids newId bundleHash) :
    Fuses S w secret balance units ids newId
      ((assemble S (w.client.config.cellSlug.getD []) source remainder
        (.initTokenFusion drawn source recipient remainder ids newId) >>= fun m => submitMolecule S m).exec u) := by
  obtain ⟨hquiet, hfunds, rfl, htakes, haddressed, hencoded, hbatchIds⟩ := hwallets
  have haccepts : Molecule.Accepts source ids newId := (accepts_iff hfunds.toHolds hbalance).mpr
    ⟨hfusible.several, hfusible.known, hfusible.fresh, hfusible.utf8⟩
  have howned : recipient.bundle ≠ [] := fun hnone => hfusible.addressed (haddressed.mp hnone)
  let start := Molecule.withWallets (w.client.config.cellSlug.getD []) (S.clock u.drawn 0) source remainder
  obtain ⟨atoms, built, hrun, hpays⟩ := haccepts.pays (S.clock u.drawn) drawn (m := start) hfunds.toHolds htakes.toEncoded howned
    hencoded hbatchIds hids hbalance rfl
  have hseveral := hfusible.several
  have hsum : (([(ids.length : Int) - 1, 1]).map fun k => |k|).sum < 2 ^ 53 := by
    rw [List.map_cons, List.map_singleton, List.sum_cons, List.sum_singleton, abs_of_nonneg (by omega), abs_one]
    omega
  have hledger : Molecule.ledgerValues balance [(ids.length : Int) - 1, 1] =
      [-(balance : Int), ids.length - 1, 1, balance - ids.length] := by simp [Molecule.ledgerValues]
  have hsent := h.pays hquiet.client (b := .initTokenFusion drawn source recipient remainder ids newId) hfunds hencoded hrun hpays
    hsum hbalance htoken
  rw [Fuses]
  dsimp only [Molecule.Builder.source] at hsent
  split_ifs at hsent ⊢
  · obtain ⟨m, hcompletes, hsends⟩ := hsent
    refine ⟨u, m, hquiet, hsends, hcompletes.check, hledger ▸ hcompletes.carry hpays.conserved.carry,
      fun hnodup hidsNodup hcount => ?_⟩
    have hheld : stoll source.balance = .ok (source.tokenUnits.length : Int) :=
      hcount ▸ Molecule.stoll_held hfunds.toHolds hbalance
    obtain ⟨e, -, hthrows⟩ | ⟨built', fused, debit, burn, fusion, rest, hexec, hatoms, hconserves⟩ :=
      Molecule.fuses_of_nodup hnodup hheld haccepts (S.clock u.drawn) drawn recipient remainder start hidsNodup
        (Molecule.writable_remaining ids hfunds.units)
    · cases hthrows.symm.trans (Act.run_eq_ok.mp hrun)
    · obtain ⟨-, rfl⟩ := Prod.mk.inj (hexec.symm.trans (Act.run_eq_ok.mp hrun))
      obtain ⟨debit', burn', fusion', rest', hsigned, hconserves'⟩ := hcompletes.conserves hatoms hconserves
      exact ⟨source, fused, debit', burn', fusion', rest', rfl, hsigned, hconserves'⟩
  · obtain ⟨e, he⟩ := hsent
    rw [he]
    exact ⟨hquiet, e, rfl⟩

theorem FusionWallets.withheld {units : List TokenUnit} {u : World E} {source recipient remainder : Wallet}
    {drawn : ByteString × ByteString}
    (hwallets : FusionWallets S w secret token balance units bundleHash u source recipient remainder drawn)
    (h : w.Ready S secret bundle) (hids : ids.length < 2 ^ 53) (hbalance : balance < 2 ^ 53)
    (hfusible : ¬ Fusible units ids newId bundleHash) :
    Withheld S w
      ((assemble S (w.client.config.cellSlug.getD []) source remainder
        (.initTokenFusion drawn source recipient remainder ids newId) >>= fun m => submitMolecule S m).exec u) := by
  obtain ⟨hquiet, hfunds, rfl, htakes, haddressed, hencoded, hbatchIds⟩ := hwallets
  let start := Molecule.withWallets (w.client.config.cellSlug.getD []) (S.clock u.drawn 0) source remainder
  by_cases haccepts : Molecule.Accepts source ids newId
  · have hunaddressed : recipient.bundle = [] := by
      by_contra howned
      exact hfusible ⟨haccepts.several, haccepts.known, haccepts.fresh, haccepts.utf8, fun hnone => howned (haddressed.mpr hnone)⟩
    obtain ⟨text, sentMeta, burnedMeta, keptMeta, -, -, hrun⟩ := haccepts.returns (S.clock u.drawn) drawn
      recipient remainder start hfunds.toHolds hids hbalance
    dsimp only at hrun
    rw [exec_bind_of_ok (exec_assemble (b := .initTokenFusion drawn source recipient remainder ids newId) hrun)]
    obtain ⟨e, he⟩ := submitMolecule_unchecked (S := S) (hquiet.client ▸ h.secret_eq) fun position signed hsign =>
      Molecule.not_check_of_unaddressed hunaddressed rfl hrun hsign
    rw [he]
    exact ⟨hquiet, e, rfl⟩
  · obtain ⟨e, -, hexec⟩ := Molecule.initTokenFusion_refuses (S.clock u.drawn) drawn recipient remainder start haccepts
    have hrun : (Molecule.initTokenFusion (S.clock u.drawn) drawn source recipient remainder ids newId).run start = .error e := by
      rw [Act.run, hexec]
    rw [Act.exec_bind, exec_assemble_error (b := .initTokenFusion drawn source recipient remainder ids newId) hrun]
    exact ⟨hquiet, e, rfl⟩

/-- A fusion is sent if and only if the row is there, its units are as the fusion asks for, and its balance is an
`int`. The number of the units is not compared with the balance. -/
theorem fuseToken_fuses (h : w.Ready S secret bundle) (hbundle : bundle ≠ []) (htoken : Plain token)
    (hbundleHash : Utf8.valid bundleHash = true) (hids : ids.length < 2 ^ 53) (hbalance : balance < 2 ^ 53)
    (hrow : ((told S w bundle token false).tokenWallet S.floatText).found = true →
      ((told S w bundle token false).tokenWallet S.floatText).Backs S.hash w.client token balance) (newId : ByteString) :
    let row := (told S w bundle token false).tokenWallet S.floatText
    let r := (fuseToken S bundleHash token newId ids).exec w
    (row.found = true → Fusible row.tokenUnits ids newId bundleHash → Fuses S w secret balance row.tokenUnits ids newId r) ∧
      (row.found = false ∨ ¬ Fusible row.tokenUnits ids newId bundleHash → Withheld S w r) := by
  dsimp only
  cases hfound : ((told S w bundle token false).tokenWallet S.floatText).found with
  | false =>
    refine ⟨nofun, fun _ => ?_⟩
    rw [fuseToken, exec_bind_of_ok (exec_ensureAuthenticated h.authenticated), exec_bind_of_ok (exec_secretValue h.secret_eq),
      exec_bind_of_ok (exec_getBundle h.bundle_eq), exec_bind_of_ok (Act.exec_get _)]
    dsimp only
    rw [exec_bind_of_ok (h.tells token false), exec_require_neg_bind (by rw [hfound]; decide)]
    exact ⟨.ask _ rfl .refl, _, rfl⟩
  | true =>
    obtain ⟨u, source, recipient, remainder, drawn, hwallets, hexec⟩ :=
      h.exec_fuseToken hbundle htoken.1 hbundleHash (hrow hfound)
    rw [hexec]
    refine ⟨fun _ hfusible => hwallets.fuses h htoken.2 hids hbalance hfusible, ?_⟩
    rintro (hmissing | hfusible)
    · cases hmissing
    · exact hwallets.withheld h hids hbalance hfusible

/-- A row of the units a, b and c. -/
def stackReply : Reply :=
  balanceReply "3" "[\x7b\"id\":\"a\",\"name\":\"U\"\x7d,\x7b\"id\":\"b\",\"name\":\"U\"\x7d,\x7b\"id\":\"c\",\"name\":\"U\"\x7d]"

def stackUnits : List TokenUnit := ["a", "b", "c"].map ValueOperation.unitNamed

theorem tokenWallet_stackReply : stackReply.tokenWallet integersOnly = sampleRow (ascii "3") stackUnits := by decide +kernel

/-- The units c and a are fused. -/
theorem fuseToken_fuses_two :
    Fuses scripted (loginWorld [stackReply]) sampleSecret 3 stackUnits [ascii "c", ascii "a"] (ascii "n")
      ((fuseToken scripted (ascii "0b") (ascii "T") (ascii "n") [ascii "c", ascii "a"]).exec (loginWorld [stackReply])) := by
  have hrow : (told scripted (loginWorld [stackReply]) sampleBundle (ascii "T") false).tokenWallet scripted.floatText =
      sampleRow (ascii "3") stackUnits := tokenWallet_stackReply
  have hbacked : (sampleRow (ascii "3") stackUnits).Backs (.constant 0) sampleClient (ascii "T") 3 := by
    refine ⟨rfl, by decide, fun e he => ?_⟩
    cases (bindOwnWalletOtsVersion_sample (ascii "T")).symm.trans he
  have hfuses := (fuseToken_fuses (ready_loginWorld [stackReply]) (by decide) ⟨rfl, show ascii "T" ≠ ascii "USER" by decide⟩
    (show Utf8.valid (ascii "0b") = true by decide) (show [ascii "c", ascii "a"].length < 2 ^ 53 by norm_num)
    (show 3 < 2 ^ 53 by norm_num) (fun _ => by rw [hrow]; exact hbacked) (ascii "n")).1
  rw [hrow] at hfuses
  exact hfuses rfl ⟨by decide, by decide, by decide, by decide, by decide⟩

end Fusions

end KnishIO
