import KnishIO.Molecule.Build

open ByteString

namespace KnishIO

theorem Throws.map_ok {α β : Type} {x : Throws α} {f : α → β} {b : β} (h : x.map f = .ok b) : ∃ a, x = .ok a ∧ f a = b := by
  cases x with
  | error e => cases h
  | ok a => exact ⟨a, rfl, Except.ok.inj h⟩

theorem conversion_ok {name : String} {r : Except CInteger.ConversionError Int} {i : Int} :
    conversion name r = .ok i ↔ r = .ok i := by
  rcases r with (_ | _) | j <;> simp [conversion]

theorem conversion_error {name : String} {r : Except CInteger.ConversionError Int} {e : Exception}
    (h : conversion name r = .error e) : e ≠ .undefinedBehavior := by
  rcases r with (_ | _) | j
  · obtain rfl := Except.error.inj h
    simp [Exception.invalidArgument, Exception.undefinedBehavior]
  · obtain rfl := Except.error.inj h
    simp [Exception.outOfRange, Exception.undefinedBehavior]
  · cases h

theorem stoi_ofInt {i : Int} (hlow : -2 ^ 31 ≤ i) (hhigh : i < 2 ^ 31) : stoi (Decimal.ofInt i) = .ok i :=
  conversion_ok.mpr (CInteger.stoi_ofInt hlow hhigh)

theorem stoll_ofInt {i : Int} (hlow : -2 ^ 63 ≤ i) (hhigh : i < 2 ^ 63) : stoll (Decimal.ofInt i) = .ok i :=
  conversion_ok.mpr (CInteger.stoll_ofInt hlow hhigh)

theorem signed_ok {width : Nat} {i k : Int} :
    signed width i = .ok k ↔ k = i ∧ -2 ^ (width - 1) ≤ i ∧ i < 2 ^ (width - 1) := by
  unfold signed
  split
  next h => simp [h, eq_comm]
  next h => simp [h]

theorem signed_error {width : Nat} {i : Int} {e : Exception} (h : signed width i = .error e) :
    ¬ (-2 ^ (width - 1) ≤ i ∧ i < 2 ^ (width - 1)) := by
  unfold signed at h
  split at h
  · cases h
  · assumption

theorem stoi_ofInt_ok {i k : Int} (h : stoi (Decimal.ofInt i) = .ok k) : k = i := by
  have hsigned := conversion_ok.mp h
  rw [CInteger.stoi, CInteger.toSigned, CInteger.scan_ofInt] at hsigned
  simp only at hsigned
  split at hsigned
  · exact (Except.ok.inj hsigned).symm
  · cases hsigned

theorem stoll_ofInt_ok {i k : Int} (h : stoll (Decimal.ofInt i) = .ok k) : k = i := by
  have hsigned := conversion_ok.mp h
  rw [CInteger.stoll, CInteger.toSigned, CInteger.scan_ofInt] at hsigned
  simp only at hsigned
  split at hsigned
  · exact (Except.ok.inj hsigned).symm
  · cases hsigned

theorem stoll_range {s : ByteString} {i : Int} (h : stoll s = .ok i) : -2 ^ 63 ≤ i ∧ i < 2 ^ 63 := by
  have hsigned := conversion_ok.mp h
  rw [CInteger.stoll, CInteger.toSigned] at hsigned
  split at hsigned
  · cases hsigned
  split at hsigned
  next hrange =>
    obtain rfl := Except.ok.inj hsigned
    exact hrange
  next => cases hsigned

/-- An `int` is a `long long`. -/
theorem stoll_of_stoi {s : ByteString} {i : Int} (h : stoi s = .ok i) : stoll s = .ok i ∧ -2 ^ 31 ≤ i ∧ i < 2 ^ 31 := by
  have hsigned := conversion_ok.mp h
  rw [CInteger.stoi, CInteger.toSigned] at hsigned
  cases hscan : CInteger.scan s with
  | none => simp [hscan] at hsigned
  | some r =>
    obtain ⟨k, rest⟩ := r
    simp only [hscan] at hsigned
    split at hsigned
    next hrange =>
      obtain rfl := Except.ok.inj hsigned
      refine ⟨conversion_ok.mpr ?_, hrange⟩
      rw [CInteger.stoll, CInteger.toSigned, hscan]
      exact if_pos (by omega)
    next => cases hsigned

namespace Molecule

/-- Every string of the units is UTF-8. -/
def Writable (units : List TokenUnit) : Prop := ∀ u ∈ units, (Wallet.unitTriple u).utf8 = true

instance (units : List TokenUnit) : Decidable (Writable units) := List.decidableBAll _ units

theorem unitsMeta_of_writable {units : List TokenUnit} (h : Writable units) : ∃ metas, unitsMeta units = .ok metas := by
  unfold unitsMeta Wallet.unitsJson dumpJson
  split
  · exact ⟨_, rfl⟩
  · have hutf8 : (Json.arr (units.map Wallet.unitTriple)).utf8 = true :=
      (Json.utf8Items_iff _).mpr (List.forall_mem_map.mpr h)
    rw [Json.dump_of_utf8 hutf8]
    exact ⟨_, rfl⟩

theorem writable_of_unitsMeta {units : List TokenUnit} {metas : Metas} (h : unitsMeta units = .ok metas) :
    Writable units := by
  unfold unitsMeta at h
  split at h
  next hnone => simp [Writable, hnone]
  next =>
    obtain ⟨json, hjson, -⟩ := Throws.map_ok h
    exact List.forall_mem_map.mp ((Json.utf8Items_iff _).mp (dumpJson_ok hjson).1)

theorem unitsMeta_error {units : List TokenUnit} {e : Exception} (h : unitsMeta units = .error e) :
    ¬ Writable units ∧ e = .jsonUtf8 := by
  refine ⟨fun hwritable => ?_, ?_⟩
  · obtain ⟨metas, hmetas⟩ := unitsMeta_of_writable hwritable
    cases hmetas.symm.trans h
  · unfold unitsMeta Wallet.unitsJson dumpJson at h
    split at h
    · cases h
    split at h <;> cases h
    rfl

end Molecule

/-- The atom carries these units. -/
def Atom.Carries (a : Atom) (units : List TokenUnit) : Prop := Molecule.unitsMeta units = .ok a.meta

theorem Atom.Carries.eq_nil {a : Atom} {units : List TokenUnit} (h : a.Carries units) (hnone : a.meta = []) : units = [] := by
  unfold Atom.Carries Molecule.unitsMeta at h
  by_contra hne
  rw [if_neg hne, hnone] at h
  cases hjson : Wallet.unitsJson units with
  | error e => simp [hjson, Except.map] at h
  | ok json => simp [hjson, Except.map] at h

namespace Molecule

/-- The atom that takes the whole balance of its wallet. -/
def debitAtom (createdAt : Int64) (isotope : String) (source : Wallet) (metaType metaId : ByteString) (metas : Metas) :
    Atom :=
  Atom.new createdAt source.position source.address isotope source.token (ascii "-" ++ source.balance) source.batchId
    metaType metaId metas 0

/-- An atom that credits a wallet of a bundle. -/
def creditAtom (createdAt : Int64) (isotope : String) (wallet : Wallet) (token value bundle : ByteString) (metas : Metas)
    (index : Nat) : Atom :=
  Atom.new createdAt wallet.position wallet.address isotope token value wallet.batchId (ascii "walletBundle") bundle metas
    (Int32.ofNat index)

/-- The molecule with atoms appended and the hash cleared. -/
def appended (m : Molecule) (atoms : List Atom) : Molecule := { m with molecularHash := [], atoms := m.atoms ++ atoms }

section Runs

variable (clock : Nat → Int64)

/-- The atoms that the loop over the recipients appends, with the total it ends at. -/
def credits (token : Wallet → ByteString) (recipientMeta : Wallet → Throws Metas) :
    Nat → Int → List Wallet → List ByteString → Throws (List Atom × Int)
  | _, total, [], _ => .ok ([], total)
  | _, _, _ :: _, [] => .error .undefinedBehavior
  | index, total, recipientWallet :: recipientWallets, amount :: amounts => do
    let added ← stoll amount
    let total ← KnishIO.signed 64 (total + added)
    let metas ← recipientMeta recipientWallet
    let rest ← credits token recipientMeta (index + 1) total recipientWallets amounts
    return (creditAtom (clock index) "V" recipientWallet (token recipientWallet) amount recipientWallet.bundle metas index ::
      rest.1, rest.2)

theorem run_creditRecipients (token : Wallet → ByteString) (recipientMeta : Wallet → Throws Metas) (index : Nat)
    (total : Int) (recipientWallets : List Wallet) (amounts : List ByteString) (m : Molecule) :
    (creditRecipients clock token recipientMeta index total recipientWallets amounts).run m = do
      let r ← credits clock token recipientMeta index total recipientWallets amounts
      return ((index + recipientWallets.length, r.2), { m with atoms := m.atoms ++ r.1 }) := by
  induction recipientWallets generalizing index total amounts m with
  | nil =>
    have hsame : { m with atoms := m.atoms ++ [] } = m := by rw [List.append_nil]
    rw [creditRecipients, credits, Act.run_pure]
    exact congrArg (fun built => Except.ok ((index, total), built)) hsame.symm
  | cons w ws ih =>
    cases amounts with
    | nil => rfl
    | cons amount amounts =>
      simp only [creditRecipients, credits, pushAtom, Act.run_ofExcept_bind, Act.run_modify_bind, ih, bind_assoc, pure_bind]
      refine bind_congr fun added => bind_congr fun next => bind_congr fun metas => bind_congr fun rest => ?_
      rw [List.append_assoc, List.length_cons, Nat.add_right_comm, Nat.add_assoc index]
      rfl

theorem run_initValue (source recipient remainder : Wallet) (value : ByteString) (m : Molecule) :
    (initValue clock source recipient remainder value).run m = do
      let sourceMeta ← unitsMeta source.tokenUnits
      let recipientMeta ← unitsMeta recipient.tokenUnits
      let remainderMeta ← unitsMeta remainder.tokenUnits
      let balance ← stoi source.balance
      let spent ← stoi value
      let remainderAmount ← KnishIO.signed 32 (balance - spent)
      let built := m.appended [debitAtom (clock 0) "V" source [] [] sourceMeta,
        creditAtom (clock 1) "V" recipient recipient.token value recipient.bundle recipientMeta 1,
        creditAtom (clock 2) "V" remainder remainder.token (Decimal.ofInt remainderAmount) remainder.bundle remainderMeta 2]
      return (built.atoms, built) := by
  simp only [initValue, clearHash, pushAtom, builtAtoms, Act.run_ofExcept_bind, Act.run_modify_bind]
  refine bind_congr fun sourceMeta => bind_congr fun recipientMeta => bind_congr fun remainderMeta =>
    bind_congr fun balance => bind_congr fun spent => bind_congr fun remainderAmount => ?_
  simp only [List.append_assoc]
  rfl

theorem run_initValues (source : Wallet) (recipients : List Wallet) (amounts : List ByteString) (remainder : Wallet)
    (m : Molecule) :
    (initValues clock source recipients amounts remainder).run m = do
      let sourceMeta ← unitsMeta source.tokenUnits
      let r ← credits clock (·.token) (fun w => unitsMeta w.tokenUnits) 1 0 recipients amounts
      let remainderMeta ← unitsMeta remainder.tokenUnits
      let balance ← stoll source.balance
      let remainderAmount ← KnishIO.signed 64 (balance - r.2)
      let built := m.appended (debitAtom (clock 0) "V" source [] [] sourceMeta :: r.1 ++
        [creditAtom (clock (1 + recipients.length)) "V" remainder remainder.token (Decimal.ofInt remainderAmount)
          remainder.bundle remainderMeta (1 + recipients.length)])
      return (built.atoms, built) := by
  simp only [initValues, clearHash, pushAtom, builtAtoms, Act.run_ofExcept_bind, Act.run_modify_bind,
    Act.run_bind (creditRecipients _ _ _ _ _ _ _), run_creditRecipients, bind_assoc, pure_bind]
  refine bind_congr fun sourceMeta => bind_congr fun r => bind_congr fun remainderMeta => bind_congr fun balance =>
    bind_congr fun remainderAmount => ?_
  simp only [List.append_assoc]
  rfl

theorem run_initDepositBuffer (source buffer remainder : Wallet) (amount : ByteString) (tradeRates : Metas)
    (m : Molecule) :
    (initDepositBuffer clock source buffer remainder amount tradeRates).run m = do
      let bufferMeta ← tradeRatesMeta tradeRates
      let balance ← stoll source.balance
      let deposited ← stoll amount
      let remainderAmount ← KnishIO.signed 64 (balance - deposited)
      let built := m.appended [debitAtom (clock 0) "V" source [] [] [],
        creditAtom (clock 1) "B" buffer buffer.token amount source.bundle bufferMeta 1,
        creditAtom (clock 2) "V" remainder remainder.token (Decimal.ofInt remainderAmount) source.bundle [] 2]
      return (built.atoms, built) := by
  simp only [initDepositBuffer, clearHash, pushAtom, builtAtoms, Act.run_ofExcept_bind, Act.run_modify_bind]
  refine bind_congr fun bufferMeta => bind_congr fun balance => bind_congr fun deposited =>
    bind_congr fun remainderAmount => ?_
  simp only [List.append_assoc]
  rfl

theorem run_initWithdrawBuffer (source : Wallet) (recipients : List Wallet) (amounts : List ByteString)
    (remainder : Wallet) (m : Molecule) :
    (initWithdrawBuffer clock source recipients amounts remainder).run m = do
      let sourceMeta ← unitsMeta source.tokenUnits
      let r ← credits clock (fun _ => source.token) (fun _ => .ok []) 1 0 recipients amounts
      let balance ← stoll source.balance
      let remainderAmount ← KnishIO.signed 64 (balance - r.2)
      let built := m.appended (debitAtom (clock 0) "B" source (ascii "walletBundle") source.bundle sourceMeta :: r.1 ++
        [creditAtom (clock (1 + recipients.length)) "B" remainder remainder.token (Decimal.ofInt remainderAmount)
          remainder.bundle [] (1 + recipients.length)])
      return (built.atoms, built) := by
  simp only [initWithdrawBuffer, clearHash, pushAtom, builtAtoms, Act.run_ofExcept_bind, Act.run_modify_bind,
    Act.run_bind (creditRecipients _ _ _ _ _ _ _), run_creditRecipients, bind_assoc, pure_bind]
  refine bind_congr fun sourceMeta => bind_congr fun r => bind_congr fun balance =>
    bind_congr fun remainderAmount => ?_
  simp only [List.append_assoc]
  rfl

/-- The atoms of a fusion of resolved units. -/
def fusionAtoms (drawn : ByteString × ByteString) (source recipient remainder : Wallet) (fused : Nat)
    (sentMeta burnedMeta keptMeta : Metas) (newUnitJson : ByteString) (remainderAmount : Int) : List Atom :=
  let freshBatchId (batchId : ByteString) : ByteString := if source.batchId = [] then [] else batchId
  [debitAtom (clock 0) "V" source [] [] sentMeta,
    Atom.new (clock 1) [] [] "V" source.token (Decimal.ofInt (fused - 1)) (freshBatchId drawn.1) (ascii "walletBundle")
      zeroBundle burnedMeta 1,
    Atom.new (clock 2) recipient.position recipient.address "F" source.token (ascii "1") (freshBatchId drawn.2)
      (ascii "walletBundle") recipient.bundle [(ascii "tokenUnits", newUnitJson)] 2,
    Atom.new (clock 3) remainder.position remainder.address "V" source.token (Decimal.ofInt remainderAmount)
      source.batchId (ascii "walletBundle") source.bundle keptMeta 3]

theorem run_initTokenFusion (drawn : ByteString × ByteString) (source recipient remainder : Wallet)
    (fusedTokenUnitIds : List ByteString) (newTokenUnitId : ByteString) (m : Molecule) :
    (initTokenFusion clock drawn source recipient remainder fusedTokenUnitIds newTokenUnitId).run m =
      if fusedTokenUnitIds.length < 2 then
        .error (.knishio (ascii "Token fusion requires at least two token units"))
      else do
        let fused ← resolveUnits source.tokenUnits fusedTokenUnitIds
        if source.tokenUnits.any fun u => u.id = newTokenUnitId then
          .error (.knishio (ascii "Token fusion unit id already exists in the source wallet"))
        else do
          let newUnitJson ← dumpJson (.arr [fusedUnitJson newTokenUnitId fused])
          let balance ← stoll source.balance
          let sentMeta ← unitsMeta (source.tokenUnits.filter (Wallet.idInList fusedTokenUnitIds))
          let burnedMeta ← unitsMeta fused.dropLast
          let remainderAmount ← KnishIO.signed 64 (balance - fused.length)
          let keptMeta ← unitsMeta (source.tokenUnits.filter fun u => !Wallet.idInList fusedTokenUnitIds u)
          let built := m.appended (fusionAtoms clock drawn source recipient remainder fused.length sentMeta burnedMeta
            keptMeta newUnitJson remainderAmount)
          return (built.atoms, built) := by
  by_cases hfew : fusedTokenUnitIds.length < 2
  · simp only [initTokenFusion, hfew, ↓reduceIte]
    rfl
  simp only [initTokenFusion, hfew, ↓reduceIte]
  refine (Act.run_ofExcept_bind _ _ _).trans (bind_congr fun fused => ?_)
  by_cases hexists : (source.tokenUnits.any fun u => u.id = newTokenUnitId) = true
  · simp only [hexists, ↓reduceIte]
    rfl
  simp only [hexists, Bool.false_eq_true, ↓reduceIte, clearHash, pushAtom, builtAtoms, Act.run_ofExcept_bind,
    Act.run_modify_bind]
  refine bind_congr fun newUnitJson => bind_congr fun balance => bind_congr fun sentMeta => bind_congr fun burnedMeta =>
    bind_congr fun remainderAmount => bind_congr fun keptMeta => ?_
  simp only [List.append_assoc]
  rfl

end Runs

section Credits

variable {clock : Nat → Int64} {token : Wallet → ByteString} {recipientMeta : Wallet → Throws Metas} {index : Nat}
  {total : Int} {recipients : List Wallet} {r : List Atom × Int}

/-- The atom of one recipient. -/
structure Credits (token : Wallet → ByteString) (recipientMeta : Wallet → Throws Metas) (wallet : Wallet) (atom : Atom) :
    Prop where
  isotope : atom.isotope = ascii "V"
  token_eq : atom.token = token wallet
  metaType : atom.metaType = ascii "walletBundle"
  metaId : atom.metaId = wallet.bundle
  metas : recipientMeta wallet = .ok atom.meta

/-- The loop writes one atom for each recipient, with its amount and the next index. -/
theorem credits_ok {amounts : List ByteString} (hlength : amounts.length = recipients.length)
    (h : credits clock token recipientMeta index total recipients amounts = .ok r) :
    List.Forall₂ (Credits token recipientMeta) recipients r.1 ∧ r.1.map (·.value) = amounts ∧
      r.1.map (·.index) = (List.range' index recipients.length).map Int32.ofNat := by
  induction recipients generalizing index total amounts r with
  | nil =>
    obtain rfl := Except.ok.inj h
    obtain rfl := List.eq_nil_of_length_eq_zero hlength
    exact ⟨.nil, rfl, rfl⟩
  | cons w ws ih =>
    cases amounts with
    | nil => cases h
    | cons amount amounts =>
      obtain ⟨added, hadded, h⟩ := Throws.bind_ok h
      obtain ⟨next, hnext, h⟩ := Throws.bind_ok h
      obtain ⟨metas, hmetas, h⟩ := Throws.bind_ok h
      obtain ⟨rest, hrest, h⟩ := Throws.bind_ok h
      obtain rfl := Except.ok.inj h
      obtain ⟨heach, hvalues, hindices⟩ := ih (by simpa using hlength) hrest
      refine ⟨.cons ⟨rfl, rfl, rfl, rfl, hmetas⟩ heach, ?_, ?_⟩
      · rw [List.map_cons, hvalues]
        rfl
      · rw [List.map_cons, hindices, List.length_cons, List.range'_succ, List.map_cons]
        rfl

/-- The total is the sum of the amounts, and it is a `long long`. -/
theorem credits_total {ks : List Int} (hlength : ks.length = recipients.length)
    (htotal : -2 ^ 63 ≤ total ∧ total < 2 ^ 63)
    (h : credits clock token recipientMeta index total recipients (ks.map Decimal.ofInt) = .ok r) :
    r.2 = total + ks.sum ∧ -2 ^ 63 ≤ r.2 ∧ r.2 < 2 ^ 63 := by
  induction recipients generalizing index total ks r with
  | nil =>
    obtain rfl := Except.ok.inj h
    obtain rfl := List.eq_nil_of_length_eq_zero hlength
    simpa using htotal
  | cons w ws ih =>
    cases ks with
    | nil => cases h
    | cons k ks =>
      obtain ⟨added, hadded, h⟩ := Throws.bind_ok h
      obtain ⟨next, hnext, h⟩ := Throws.bind_ok h
      obtain ⟨metas, hmetas, h⟩ := Throws.bind_ok h
      obtain ⟨rest, hrest, h⟩ := Throws.bind_ok h
      obtain rfl := Except.ok.inj h
      obtain rfl := stoll_ofInt_ok hadded
      obtain ⟨rfl, hrange⟩ := signed_ok.mp hnext
      obtain ⟨hsum, hlow, hhigh⟩ := ih (by simpa using hlength) hrange hrest
      exact ⟨by rw [List.sum_cons, ← add_assoc, hsum], hlow, hhigh⟩

/-- The loop throws what a meta throws, or its total leaves the range of `long long`. -/
theorem credits_error {ks : List Int} (hlength : ks.length = recipients.length)
    (hks : ∀ k ∈ ks, -2 ^ 63 ≤ k ∧ k < 2 ^ 63) {e : Exception}
    (h : credits clock token recipientMeta index total recipients (ks.map Decimal.ofInt) = .error e) :
    (∃ w ∈ recipients, recipientMeta w = .error e) ∨
      ∃ front, front <+: ks ∧ ¬ (-2 ^ 63 ≤ total + front.sum ∧ total + front.sum < 2 ^ 63) := by
  induction recipients generalizing index total ks with
  | nil => cases h
  | cons w ws ih =>
    cases ks with
    | nil => cases hlength
    | cons k ks =>
      have hk := hks k List.mem_cons_self
      have hstoll := stoll_ofInt hk.1 hk.2
      obtain hconversion | ⟨added, hadded, h⟩ := Throws.bind_error h
      · cases hstoll.symm.trans hconversion
      obtain rfl := stoll_ofInt_ok hadded
      obtain hrange | ⟨next, hnext, h⟩ := Throws.bind_error h
      · exact .inr ⟨[added], List.cons_prefix_cons.mpr ⟨rfl, List.nil_prefix⟩, by simpa using signed_error hrange⟩
      obtain ⟨rfl, -⟩ := signed_ok.mp hnext
      obtain hmetas | ⟨metas, -, h⟩ := Throws.bind_error h
      · exact .inl ⟨w, List.mem_cons_self, hmetas⟩
      obtain hrest | ⟨rest, -, h⟩ := Throws.bind_error h
      · obtain ⟨w', hw', hmetas⟩ | ⟨front, hfront, hrange⟩ :=
          ih (by simpa using hlength) (fun k hk => hks k (List.mem_cons_of_mem _ hk)) hrest
        · exact .inl ⟨w', List.mem_cons_of_mem _ hw', hmetas⟩
        · exact .inr ⟨added :: front, List.cons_prefix_cons.mpr ⟨rfl, hfront⟩, by rwa [List.sum_cons, ← add_assoc]⟩
      · cases h

end Credits

section Results

variable {clock : Nat → Int64} {source recipient buffer remainder : Wallet} {recipients : List Wallet}
  {amount : ByteString} {amounts : List ByteString} {tradeRates : Metas} {m built : Molecule} {atoms : List Atom}

theorem initValue_ok (h : (initValue clock source recipient remainder amount).run m = .ok (atoms, built)) :
    ∃ sourceMeta recipientMeta remainderMeta balance spent,
      unitsMeta source.tokenUnits = .ok sourceMeta ∧ unitsMeta recipient.tokenUnits = .ok recipientMeta ∧
      unitsMeta remainder.tokenUnits = .ok remainderMeta ∧ stoi source.balance = .ok balance ∧ stoi amount = .ok spent ∧
      built = m.appended [debitAtom (clock 0) "V" source [] [] sourceMeta,
        creditAtom (clock 1) "V" recipient recipient.token amount recipient.bundle recipientMeta 1,
        creditAtom (clock 2) "V" remainder remainder.token (Decimal.ofInt (balance - spent)) remainder.bundle
          remainderMeta 2] := by
  rw [run_initValue] at h
  obtain ⟨sourceMeta, hsource, h⟩ := Throws.bind_ok h
  obtain ⟨recipientMeta, hrecipient, h⟩ := Throws.bind_ok h
  obtain ⟨remainderMeta, hremainder, h⟩ := Throws.bind_ok h
  obtain ⟨balance, hbalance, h⟩ := Throws.bind_ok h
  obtain ⟨spent, hspent, h⟩ := Throws.bind_ok h
  obtain ⟨remainderAmount, hamount, h⟩ := Throws.bind_ok h
  obtain ⟨rfl, -⟩ := signed_ok.mp hamount
  obtain ⟨-, rfl⟩ := Prod.mk.inj (Except.ok.inj h)
  exact ⟨_, _, _, _, _, hsource, hrecipient, hremainder, hbalance, hspent, rfl⟩

theorem initValues_ok (h : (initValues clock source recipients amounts remainder).run m = .ok (atoms, built)) :
    ∃ sourceMeta r remainderMeta balance,
      unitsMeta source.tokenUnits = .ok sourceMeta ∧
      credits clock (·.token) (fun w => unitsMeta w.tokenUnits) 1 0 recipients amounts = .ok r ∧
      unitsMeta remainder.tokenUnits = .ok remainderMeta ∧ stoll source.balance = .ok balance ∧
      built = m.appended (debitAtom (clock 0) "V" source [] [] sourceMeta :: r.1 ++
        [creditAtom (clock (1 + recipients.length)) "V" remainder remainder.token (Decimal.ofInt (balance - r.2))
          remainder.bundle remainderMeta (1 + recipients.length)]) := by
  rw [run_initValues] at h
  obtain ⟨sourceMeta, hsource, h⟩ := Throws.bind_ok h
  obtain ⟨r, hr, h⟩ := Throws.bind_ok h
  obtain ⟨remainderMeta, hremainder, h⟩ := Throws.bind_ok h
  obtain ⟨balance, hbalance, h⟩ := Throws.bind_ok h
  obtain ⟨remainderAmount, hamount, h⟩ := Throws.bind_ok h
  obtain ⟨rfl, -⟩ := signed_ok.mp hamount
  obtain ⟨-, rfl⟩ := Prod.mk.inj (Except.ok.inj h)
  exact ⟨_, _, _, _, hsource, hr, hremainder, hbalance, rfl⟩

theorem initDepositBuffer_ok
    (h : (initDepositBuffer clock source buffer remainder amount tradeRates).run m = .ok (atoms, built)) :
    ∃ bufferMeta balance deposited,
      tradeRatesMeta tradeRates = .ok bufferMeta ∧ stoll source.balance = .ok balance ∧ stoll amount = .ok deposited ∧
      built = m.appended [debitAtom (clock 0) "V" source [] [] [],
        creditAtom (clock 1) "B" buffer buffer.token amount source.bundle bufferMeta 1,
        creditAtom (clock 2) "V" remainder remainder.token (Decimal.ofInt (balance - deposited)) source.bundle [] 2] := by
  rw [run_initDepositBuffer] at h
  obtain ⟨bufferMeta, hbuffer, h⟩ := Throws.bind_ok h
  obtain ⟨balance, hbalance, h⟩ := Throws.bind_ok h
  obtain ⟨deposited, hdeposited, h⟩ := Throws.bind_ok h
  obtain ⟨remainderAmount, hamount, h⟩ := Throws.bind_ok h
  obtain ⟨rfl, -⟩ := signed_ok.mp hamount
  obtain ⟨-, rfl⟩ := Prod.mk.inj (Except.ok.inj h)
  exact ⟨_, _, _, hbuffer, hbalance, hdeposited, rfl⟩

theorem initWithdrawBuffer_ok
    (h : (initWithdrawBuffer clock source recipients amounts remainder).run m = .ok (atoms, built)) :
    ∃ sourceMeta r balance,
      unitsMeta source.tokenUnits = .ok sourceMeta ∧
      credits clock (fun _ => source.token) (fun _ => .ok []) 1 0 recipients amounts = .ok r ∧
      stoll source.balance = .ok balance ∧
      built = m.appended (debitAtom (clock 0) "B" source (ascii "walletBundle") source.bundle sourceMeta :: r.1 ++
        [creditAtom (clock (1 + recipients.length)) "B" remainder remainder.token (Decimal.ofInt (balance - r.2))
          remainder.bundle [] (1 + recipients.length)]) := by
  rw [run_initWithdrawBuffer] at h
  obtain ⟨sourceMeta, hsource, h⟩ := Throws.bind_ok h
  obtain ⟨r, hr, h⟩ := Throws.bind_ok h
  obtain ⟨balance, hbalance, h⟩ := Throws.bind_ok h
  obtain ⟨remainderAmount, hamount, h⟩ := Throws.bind_ok h
  obtain ⟨rfl, -⟩ := signed_ok.mp hamount
  obtain ⟨-, rfl⟩ := Prod.mk.inj (Except.ok.inj h)
  exact ⟨_, _, _, hsource, hr, hbalance, rfl⟩

theorem length_resolveUnits {tokenUnits : List TokenUnit} {ids : List ByteString} {units : List TokenUnit}
    (h : resolveUnits tokenUnits ids = .ok units) : units.length = ids.length := by
  induction ids generalizing units with
  | nil =>
    obtain rfl := Except.ok.inj h
    rfl
  | cons id ids ih =>
    unfold resolveUnits at h
    split at h
    · cases h
    cases hrest : resolveUnits tokenUnits ids with
    | error e => simp [hrest, Except.map] at h
    | ok rest =>
      simp only [hrest, Except.map, Except.ok.injEq] at h
      rw [← h, List.length_cons, List.length_cons, ih hrest]

theorem initTokenFusion_ok {drawn : ByteString × ByteString} {ids : List ByteString} {newId : ByteString}
    (h : (initTokenFusion clock drawn source recipient remainder ids newId).run m = .ok (atoms, built)) :
    ∃ balance sentMeta burnedMeta keptMeta newUnitJson,
      stoll source.balance = .ok balance ∧
      built = m.appended (fusionAtoms clock drawn source recipient remainder ids.length sentMeta burnedMeta keptMeta
        newUnitJson (balance - ids.length)) := by
  rw [run_initTokenFusion] at h
  split at h
  · cases h
  obtain ⟨fused, hfused, h⟩ := Throws.bind_ok h
  split at h
  · cases h
  obtain ⟨newUnitJson, -, h⟩ := Throws.bind_ok h
  obtain ⟨balance, hbalance, h⟩ := Throws.bind_ok h
  obtain ⟨sentMeta, -, h⟩ := Throws.bind_ok h
  obtain ⟨burnedMeta, -, h⟩ := Throws.bind_ok h
  obtain ⟨remainderAmount, hamount, h⟩ := Throws.bind_ok h
  obtain ⟨keptMeta, -, h⟩ := Throws.bind_ok h
  obtain ⟨rfl, -⟩ := signed_ok.mp hamount
  obtain ⟨-, rfl⟩ := Prod.mk.inj (Except.ok.inj h)
  rw [length_resolveUnits hfused]
  exact ⟨_, _, _, _, _, hbalance, rfl⟩

end Results

section Drains

variable {clock : Nat → Int64} {source recipient buffer remainder : Wallet} {recipients : List Wallet} {amount : Int}
  {amounts : List Int} {tradeRates : Metas} {m built : Molecule} {atoms : List Atom}

/-- The whole balance leaves the source, the amounts are credited, and the remainder gets the rest. -/
def Drains (balance : ByteString) (amounts : List Int) (atoms : List Atom) : Prop :=
  ∃ debit credited remainder k, atoms = debit :: credited ++ [remainder] ∧ stoll balance = .ok k ∧
    debit.value = ascii "-" ++ balance ∧ credited.map (·.value) = amounts.map Decimal.ofInt ∧
    remainder.value = Decimal.ofInt (k - amounts.sum)

theorem drains_initValue (hfresh : m.atoms = [])
    (h : (initValue clock source recipient remainder (Decimal.ofInt amount)).run m = .ok (atoms, built)) :
    Drains source.balance [amount] built.atoms := by
  obtain ⟨_, _, _, balance, spent, -, -, -, hbalance, hspent, rfl⟩ := initValue_ok h
  obtain rfl := stoi_ofInt_ok hspent
  rw [appended, hfresh]
  exact ⟨_, [_], _, balance, rfl, (stoll_of_stoi hbalance).1, rfl, rfl, by rw [List.sum_singleton]; rfl⟩

theorem drains_initValues (hfresh : m.atoms = []) (hlength : amounts.length = recipients.length)
    (h : (initValues clock source recipients (amounts.map Decimal.ofInt) remainder).run m = .ok (atoms, built)) :
    Drains source.balance amounts built.atoms := by
  obtain ⟨_, r, _, balance, -, hr, -, hbalance, rfl⟩ := initValues_ok h
  obtain ⟨-, hvalues, -⟩ := credits_ok (by simpa using hlength) hr
  obtain ⟨htotal, -⟩ := credits_total hlength (by norm_num) hr
  rw [zero_add] at htotal
  rw [appended, hfresh]
  exact ⟨_, r.1, _, balance, rfl, hbalance, rfl, hvalues, by rw [← htotal]; rfl⟩

theorem drains_initDepositBuffer (hfresh : m.atoms = [])
    (h : (initDepositBuffer clock source buffer remainder (Decimal.ofInt amount) tradeRates).run m = .ok (atoms, built)) :
    Drains source.balance [amount] built.atoms := by
  obtain ⟨_, balance, deposited, -, hbalance, hdeposited, rfl⟩ := initDepositBuffer_ok h
  obtain rfl := stoll_ofInt_ok hdeposited
  rw [appended, hfresh]
  exact ⟨_, [_], _, balance, rfl, hbalance, rfl, rfl, by rw [List.sum_singleton]; rfl⟩

theorem drains_initWithdrawBuffer (hfresh : m.atoms = []) (hlength : amounts.length = recipients.length)
    (h : (initWithdrawBuffer clock source recipients (amounts.map Decimal.ofInt) remainder).run m = .ok (atoms, built)) :
    Drains source.balance amounts built.atoms := by
  obtain ⟨_, r, balance, -, hr, hbalance, rfl⟩ := initWithdrawBuffer_ok h
  obtain ⟨-, hvalues, -⟩ := credits_ok (by simpa using hlength) hr
  obtain ⟨htotal, -⟩ := credits_total hlength (by norm_num) hr
  rw [zero_add] at htotal
  rw [appended, hfresh]
  exact ⟨_, r.1, _, balance, rfl, hbalance, rfl, hvalues, by rw [← htotal]; rfl⟩

end Drains

end Molecule

end KnishIO
