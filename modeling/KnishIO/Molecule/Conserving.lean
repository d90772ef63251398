import KnishIO.Library.Selection
import KnishIO.Molecule.Conservation
import KnishIO.Molecule.RoundTrip
import KnishIO.Molecule.ValueBuilders

open ByteString

namespace KnishIO

namespace Molecule

open BinaryFloat CFloat

section Numerals

theorem all_isDigit_ofNat (n : Nat) : (Decimal.ofNat n).all Decimal.isDigit = true :=
  List.all_eq_true.mpr fun _ hc => Decimal.isDigit_of_mem_ofNat hc

theorem decimalInt?_ofNat (n : Nat) : decimalInt? (Decimal.ofNat n) = some (n : Int) := by
  have hsign : CInteger.scanSign (Decimal.ofNat n) = (false, Decimal.ofNat n) := by
    obtain ⟨c, ds, hsplit⟩ := List.exists_cons_of_ne_nil (Decimal.ofNat_ne_nil n)
    have hc : Decimal.isDigit c = true := Decimal.isDigit_of_mem_ofNat (n := n) (by simp [hsplit])
    have hne : c ≠ 45 ∧ c ≠ 43 := by constructor <;> rintro rfl <;> cases hc
    rw [hsplit]
    simp [CInteger.scanSign, hne.1, hne.2]
  simp [decimalInt?, hsign, Decimal.ofNat_ne_nil, all_isDigit_ofNat]

theorem decimalInt?_minus (n : Nat) : decimalInt? (ascii "-" ++ Decimal.ofNat n) = some (-(n : Int)) := by
  have hsign : CInteger.scanSign (ascii "-" ++ Decimal.ofNat n) = (true, Decimal.ofNat n) := rfl
  simp [decimalInt?, hsign, Decimal.ofNat_ne_nil, all_isDigit_ofNat]

theorem decimalInt?_ofInt (k : Int) : decimalInt? (Decimal.ofInt k) = some k := by
  unfold Decimal.ofInt
  split
  · rw [show (45 : UInt8) :: Decimal.ofNat k.natAbs = ascii "-" ++ Decimal.ofNat k.natAbs from rfl, decimalInt?_minus,
      show -(k.natAbs : Int) = k by omega]
  · rw [decimalInt?_ofNat, show (k.natAbs : Int) = k by omega]

end Numerals

section Sums

variable {select : Atom → Bool} {atoms : List Atom} {values : List Int}

/-- The atoms carry the given integers. -/
def Carry (atoms : List Atom) (values : List Int) : Prop :=
  List.Forall₂ (fun a v => decimalInt? a.value = some v) atoms values

theorem Carry.exactSum (hselect : ∀ a ∈ atoms, select a = true) (h : Carry atoms values) :
    exactSum select atoms = values.sum := by
  induction h with
  | nil => rfl
  | cons hhead _ ih =>
    obtain ⟨hfirst, hrest⟩ := List.forall_mem_cons.mp hselect
    rw [exactSum_cons_of_value hfirst hhead, ih hrest, List.sum_cons]

theorem exactSum_of_none (h : ∀ a ∈ atoms, select a = false) : Molecule.exactSum select atoms = 0 := by
  induction atoms with
  | nil => rfl
  | cons a as ih =>
    obtain ⟨hfirst, hrest⟩ := List.forall_mem_cons.mp h
    rw [exactSum_cons_of_not hfirst, ih hrest]

theorem Carry.value (h : Carry atoms values) {a : Atom} (ha : a ∈ atoms) : ∃ v ∈ values, decimalInt? a.value = some v :=
  List.Forall₂.exists_of_mem h ha

theorem Carry.atom (h : Carry atoms values) {v : Int} (hv : v ∈ values) : ∃ a ∈ atoms, decimalInt? a.value = some v :=
  (List.Forall₂.flip h).exists_of_mem hv

theorem Carry.partialSums (hselect : ∀ a ∈ atoms, select a = true) (h : Carry atoms values) {bound : Int}
    (hsums : ∀ n, |(values.take n).sum| < bound) {front : List Atom} (hfront : front <+: atoms) :
    |Molecule.exactSum select front| < bound := by
  have hcarry : Carry (atoms.take front.length) (values.take front.length) := List.forall₂_take _ h
  rw [List.prefix_iff_eq_take.mp hfront, hcarry.exactSum fun a ha => hselect a (List.mem_of_mem_take ha)]
  exact hsums front.length

/-- The values of a value molecule: the balance leaves, the amounts and the remainder arrive. -/
def ledgerValues (balance : Nat) (ks : List Int) : List Int := -(balance : Int) :: ks ++ [balance - ks.sum]

theorem sum_ledgerValues (balance : Nat) (ks : List Int) : (ledgerValues balance ks).sum = 0 := by
  rw [ledgerValues, List.cons_append, List.sum_cons, List.sum_append, List.sum_singleton]
  omega

/-- Every running sum is what is missing of the balance after some amounts. -/
theorem abs_sum_take_ledgerValues {balance : Nat} {ks : List Int} {bound : Int} (hbound : 0 < bound)
    (h : ∀ front, front <+: ks → |(balance : Int) - front.sum| < bound) (n : Nat) :
    |((ledgerValues balance ks).take n).sum| < bound := by
  cases n with
  | zero => simpa using hbound
  | succ n =>
    by_cases hn : n ≤ ks.length
    · have htake : (ledgerValues balance ks).take (n + 1) = -(balance : Int) :: ks.take n := by
        rw [ledgerValues, List.cons_append, List.take_succ_cons, List.take_append_of_le_length hn]
      rw [htake, List.sum_cons, ← abs_neg, neg_add, neg_neg]
      exact h _ (List.take_prefix n ks)
    · have hall : (ledgerValues balance ks).take (n + 1) = ledgerValues balance ks :=
        List.take_of_length_le (by simp only [ledgerValues, List.length_append, List.length_cons, List.length_nil]; omega)
      rw [hall, sum_ledgerValues]
      simpa using hbound

/-- Every value is the balance, an amount, or what is missing of the balance at the end. -/
theorem abs_ledgerValues {balance : Nat} {ks : List Int} {bound : Int} (hamounts : ∀ k ∈ ks, |k| < bound)
    (h : ∀ front, front <+: ks → |(balance : Int) - front.sum| < bound) {v : Int} (hv : v ∈ ledgerValues balance ks) :
    |v| < bound := by
  rw [ledgerValues, List.cons_append, List.mem_cons, List.mem_append, List.mem_singleton] at hv
  obtain rfl | hv | rfl := hv
  · have hfull := h [] List.nil_prefix
    rwa [List.sum_nil, sub_zero, ← abs_neg] at hfull
  · exact hamounts v hv
  · exact h ks List.prefix_rfl

theorem abs_sum_prefix_le {ks front : List Int} (hfront : front <+: ks) : |front.sum| ≤ (ks.map fun k => |k|).sum := by
  obtain ⟨rest, rfl⟩ := hfront
  rw [List.map_append, List.sum_append]
  have hrest : 0 ≤ (rest.map fun k => |k|).sum := List.sum_nonneg (by simp)
  have hle : |front.sum| ≤ (front.map fun k => |k|).sum := by
    clear hrest
    induction front with
    | nil => simp
    | cons k ks ih =>
      rw [List.sum_cons, List.map_cons, List.sum_cons]
      exact (abs_add_le _ _).trans (add_le_add_right ih _)
  omega

end Sums

section Acceptance

variable {m : Molecule} {token : ByteString} {balance : Nat} {ks : List Int}

theorem isVBF_of_isV {atom : Atom} (h : isV atom = true) : isVBF atom = true := by simp [isVBF, h]

theorem not_cross_of_isV {atom : Atom} (h : isV atom = true) : isB atom = false ∧ isF atom = false := by
  have hisotope : atom.isotope = ascii "V" := by simpa [isV] using h
  rw [isB, isF, hisotope]
  exact ⟨rfl, rfl⟩

theorem wellShaped_of_isV {atom : Atom} (h : isV atom = true) : wellShaped atom = true := by
  simp [wellShaped, not_cross_of_isV h]

theorem wellShaped_of_isB {atom : Atom} (h : isB atom = true) (hmetaType : atom.metaType = ascii "walletBundle")
    (hmetaId : atom.metaId ≠ []) : wellShaped atom = true := by
  have hisotope : atom.isotope = ascii "B" := by simpa [isB] using h
  have hF : isF atom = false := by
    rw [isF, hisotope]
    rfl
  simp [wellShaped, bundleReference, hF, hmetaType, hmetaId]

theorem wellShaped_of_value {atom : Atom} {v : Int} (hvalue : decimalInt? atom.value = some v) (hv : 0 ≤ v)
    (hmetaType : atom.metaType = ascii "walletBundle") (hmetaId : atom.metaId ≠ []) : wellShaped atom = true := by
  simp [wellShaped, bundleReference, hvalue, hv, hmetaType, hmetaId]

/-- The check accepts V atoms of one token that pass the balance on. -/
theorem verifyTokenIsotopeV_of_V (hhash : m.molecularHash ≠ [])
    (hatoms : ∀ a ∈ m.atoms, isV a = true ∧ a.token = token) (hcarry : Carry m.atoms (ledgerValues balance ks))
    (hamounts : ∀ k ∈ ks, |k| < 2 ^ 53) (hrunning : ∀ front, front <+: ks → |(balance : Int) - front.sum| < 2 ^ 53) :
    verifyTokenIsotopeV m = .ok true := by
  have hne : m.atoms ≠ [] := by
    intro hnil
    rw [Carry, hnil] at hcarry
    cases hcarry
  have hselect : ∀ a ∈ m.atoms, isVOf token a = true := fun a ha => by simp [isVOf, hatoms a ha]
  have hother {t : ByteString} (ht : token ≠ t) : ∀ a ∈ m.atoms, isVOf t a = false :=
    fun a ha => isVOf_of_ne ((hatoms a ha).2.trans_ne ht)
  refine (verifyTokenIsotopeV_ok_iff hne hhash (fun a ha => not_cross_of_isV (hatoms a ha).1) fun t => ?_).mpr
    fun t _ => ?_
  · by_cases ht : token = t
    · subst ht
      refine ⟨fun a ha _ => ?_, fun front => hcarry.partialSums hselect
        (abs_sum_take_ledgerValues (by norm_num) hrunning)⟩
      obtain ⟨v, hv, hvalue⟩ := hcarry.value ha
      exact ⟨v, hvalue, abs_ledgerValues hamounts hrunning hv⟩
    · refine ⟨fun a ha h => ?_, fun front hfront => ?_⟩
      · rw [hother ht a ha] at h
        cases h
      · rw [exactSum_of_none fun a ha => hother ht a (hfront.subset ha)]
        norm_num
  · by_cases ht : token = t
    · subst ht
      rw [hcarry.exactSum hselect, sum_ledgerValues]
    · exact exactSum_of_none (hother ht)

/-- The check accepts a molecule with B or F atoms of the right shape that pass the balance on. -/
theorem verifyTokenIsotopeV_of_cross (hhash : m.molecularHash ≠ []) (hcross : ∃ a ∈ m.atoms, isB a = true ∨ isF a = true)
    (hselect : ∀ a ∈ m.atoms, isVBF a = true) (hshape : ∀ a ∈ m.atoms, wellShaped a = true)
    (hcarry : Carry m.atoms (ledgerValues balance ks)) (hamounts : ∀ k ∈ ks, |k| < 2 ^ 64)
    (hrunning : ∀ front, front <+: ks → |(balance : Int) - front.sum| < 2 ^ 64) :
    verifyTokenIsotopeV m = .ok true := by
  refine (verifyTokenIsotopeV_cross_of hcross (fun a ha _ => ?_) fun front => ?_).mpr
    ⟨hhash, fun a ha _ => hshape a ha, ?_⟩
  · obtain ⟨v, hv, hvalue⟩ := hcarry.value ha
    exact ⟨v, hvalue, abs_ledgerValues hamounts hrunning hv⟩
  · exact hcarry.partialSums hselect (abs_sum_take_ledgerValues (by norm_num) hrunning)
  · rw [hcarry.exactSum hselect, sum_ledgerValues]

end Acceptance

section Builders

variable {clock : Nat → Int64} {token : ByteString} {balance : Nat} {ks : List Int} {m built : Molecule}
  {atoms : List Atom} {b : Builder}

/-- A call of a value builder on wallets of one token, with the amounts that it credits. The sums that
`initValues` runs through are those that a `double` holds. -/
inductive Spends (token : ByteString) (balance : Nat) : List Int → Builder → Prop where
  | initValues {source remainder : Wallet} {recipients : List Wallet} {ks : List Int} :
      source.token = token → (∀ w ∈ recipients, w.token = token) → remainder.token = token →
      source.balance = Decimal.ofNat balance → ks.length = recipients.length →
      (∀ front, front <+: ks → |(balance : Int) - front.sum| < 2 ^ 53) →
      Spends token balance ks (.initValues source recipients (ks.map Decimal.ofInt) remainder)
  | initDepositBuffer {source buffer remainder : Wallet} {k : Int} {tradeRates : Metas} :
      source.token = token → buffer.token = token → remainder.token = token → source.bundle ≠ [] →
      source.balance = Decimal.ofNat balance →
      Spends token balance [k] (.initDepositBuffer source buffer remainder (Decimal.ofInt k) tradeRates)
  | initWithdrawBuffer {source remainder : Wallet} {recipients : List Wallet} {ks : List Int} :
      source.token = token → (∀ w ∈ recipients, w.token = token) → remainder.token = token → source.bundle ≠ [] →
      remainder.bundle ≠ [] → source.balance = Decimal.ofNat balance → ks.length = recipients.length →
      Spends token balance ks (.initWithdrawBuffer source recipients (ks.map Decimal.ofInt) remainder)
  | initTokenFusion {drawn : ByteString × ByteString} {source recipient remainder : Wallet} {ids : List ByteString}
      {newId : ByteString} :
      source.token = token → recipient.bundle ≠ [] → source.balance = Decimal.ofNat balance →
      Spends token balance [ids.length - 1, 1] (.initTokenFusion drawn source recipient remainder ids newId)

/-- Atoms that pass a balance on, in the shape that the check asks for. -/
structure Conserved (token : ByteString) (balance : Nat) (ks : List Int) (atoms : List Atom) : Prop where
  carry : Carry atoms (ledgerValues balance ks)
  kinds : ∀ a ∈ atoms, isVBF a = true
  indices : atoms.map (·.index) = (List.range atoms.length).map Int32.ofNat
  shape : ((∀ a ∈ atoms, isV a = true ∧ a.token = token) ∧
      ∀ front, front <+: ks → |(balance : Int) - front.sum| < 2 ^ 53) ∨
    (∃ a ∈ atoms, isB a = true ∨ isF a = true) ∧ ∀ a ∈ atoms, wellShaped a = true

theorem carry_of_values (h : atoms.map (·.value) = ks.map Decimal.ofInt) : Carry atoms ks := by
  induction atoms generalizing ks with
  | nil =>
    obtain rfl := List.map_eq_nil_iff.mp h.symm
    exact .nil
  | cons a as ih =>
    cases ks with
    | nil => cases h
    | cons k ks =>
      obtain ⟨hhead, htail⟩ := List.cons.inj h
      have hvalue : a.value = Decimal.ofInt k := hhead
      exact .cons (hvalue ▸ decimalInt?_ofInt k) (ih htail)

/-- The values of a debit, of credits and of the remainder. -/
theorem carry_ledger {debit remainder : Atom} {credited : List Atom}
    (hdebit : debit.value = ascii "-" ++ Decimal.ofNat balance)
    (hcredited : credited.map (·.value) = ks.map Decimal.ofInt)
    (hremainder : remainder.value = Decimal.ofInt (balance - ks.sum)) :
    Carry (debit :: credited ++ [remainder]) (ledgerValues balance ks) :=
  .cons (hdebit ▸ decimalInt?_minus balance)
    (List.rel_append (carry_of_values hcredited) (.cons (hremainder ▸ decimalInt?_ofInt _) .nil))

theorem indices_ledger {debit remainder : Atom} {credited : List Atom} {n : Nat} (hdebit : debit.index = 0)
    (hcredited : credited.map (·.index) = (List.range' 1 n).map Int32.ofNat)
    (hremainder : remainder.index = Int32.ofNat (1 + n)) :
    (debit :: credited ++ [remainder]).map (·.index) =
      (List.range (debit :: credited ++ [remainder]).length).map Int32.ofNat := by
  have hlength : credited.length = n := by
    have := congrArg List.length hcredited
    simpa using this
  have hlast : (debit :: credited ++ [remainder]).length = n + 1 + 1 := by simp [hlength]
  rw [hlast, List.range_eq_range', List.range'_succ, zero_add, List.range'_concat, one_mul]
  simp only [List.map_append, List.map_cons, List.map_nil, hcredited, hdebit, hremainder]
  rfl

theorem isV_of_credits {tokenOf : Wallet → ByteString} {recipientMeta : Wallet → Throws Metas} {w : Wallet} {a : Atom}
    (h : Credits tokenOf recipientMeta w a) : isV a = true := by
  simp [isV, h.isotope]

theorem atoms_appended (hfresh : m.atoms = []) (new : List Atom) : (m.appended new).atoms = new := by
  rw [appended, hfresh, List.nil_append]

theorem stoll_balance {text : ByteString} (htext : text = Decimal.ofNat balance) {k : Int} (hk : stoll text = .ok k) :
    k = balance := by
  have hsame : Decimal.ofNat balance = Decimal.ofInt balance := by simp [Decimal.ofInt]
  rw [htext, hsame] at hk
  exact stoll_ofInt_ok hk

/-- What a value builder leaves passes the balance on. -/
theorem conserved_of_spends (h : Spends token balance ks b) (hfresh : m.atoms = [])
    (hrun : (b.run clock).run m = .ok (atoms, built)) : Conserved token balance ks built.atoms := by
  cases h with
  | @initValues source remainder recipients _ hsource hrecipients hremainder hbalance hlength hrunning =>
    obtain ⟨sourceMeta, r, remainderMeta, k, -, hr, -, hk, rfl⟩ := initValues_ok hrun
    obtain rfl := stoll_balance hbalance hk
    obtain ⟨heach, hvalues, hindices⟩ := credits_ok (by simpa using hlength) hr
    obtain ⟨htotal, -⟩ := credits_total hlength (by norm_num) hr
    rw [zero_add] at htotal
    have hV : ∀ a ∈ (m.appended (debitAtom (clock 0) "V" source [] [] sourceMeta :: r.1 ++
        [creditAtom (clock (1 + recipients.length)) "V" remainder remainder.token (Decimal.ofInt (balance - r.2))
          remainder.bundle remainderMeta (1 + recipients.length)])).atoms, isV a = true ∧ a.token = token := by
      rw [atoms_appended hfresh]
      intro a ha
      rw [List.cons_append, List.mem_cons, List.mem_append, List.mem_singleton] at ha
      obtain rfl | ha | rfl := ha
      · exact ⟨rfl, hsource⟩
      · obtain ⟨w, hw, hcredits⟩ := heach.flip.exists_of_mem ha
        exact ⟨isV_of_credits hcredits, hcredits.token_eq.trans (hrecipients w hw)⟩
      · exact ⟨rfl, hremainder⟩
    refine ⟨?_, fun a ha => isVBF_of_isV (hV a ha).1, ?_, .inl ⟨hV, hrunning⟩⟩
    · rw [atoms_appended hfresh]
      exact carry_ledger (congrArg (ascii "-" ++ ·) hbalance) hvalues (by rw [← htotal]; rfl)
    · rw [atoms_appended hfresh]
      exact indices_ledger rfl hindices rfl
  | @initDepositBuffer source buffer remainder k tradeRates hsource hbuffer hremainder hbundle hbalance =>
    obtain ⟨bufferMeta, k', deposited, -, hk, hdeposited, rfl⟩ := initDepositBuffer_ok hrun
    obtain rfl := stoll_balance hbalance hk
    obtain rfl := stoll_ofInt_ok hdeposited
    have hB : wellShaped (creditAtom (clock 1) "B" buffer buffer.token (Decimal.ofInt deposited) source.bundle bufferMeta 1) =
        true := wellShaped_of_isB rfl rfl hbundle
    rw [atoms_appended hfresh]
    refine ⟨?_, ?_, rfl, .inr ⟨⟨_, List.mem_cons_of_mem _ List.mem_cons_self, .inl rfl⟩, ?_⟩⟩
    · change Carry (_ :: [_] ++ [_]) _
      refine carry_ledger (congrArg (ascii "-" ++ ·) hbalance) rfl ?_
      rw [List.sum_singleton]
      rfl
    · simp only [List.forall_mem_cons, List.not_mem_nil, false_implies, implies_true, and_true]
      exact ⟨rfl, rfl, rfl⟩
    · simp only [List.forall_mem_cons, List.not_mem_nil, false_implies, implies_true, and_true]
      exact ⟨wellShaped_of_isV rfl, hB, wellShaped_of_isV rfl⟩
  | @initWithdrawBuffer source remainder recipients _ hsource hrecipients hremainder hbundle hbundle' hbalance hlength =>
    obtain ⟨sourceMeta, r, k, -, hr, hk, rfl⟩ := initWithdrawBuffer_ok hrun
    obtain rfl := stoll_balance hbalance hk
    obtain ⟨heach, hvalues, hindices⟩ := credits_ok (by simpa using hlength) hr
    obtain ⟨htotal, -⟩ := credits_total hlength (by norm_num) hr
    rw [zero_add] at htotal
    rw [atoms_appended hfresh]
    refine ⟨?_, ?_, indices_ledger rfl hindices rfl, .inr ⟨⟨_, List.mem_cons_self, .inl rfl⟩, ?_⟩⟩
    · exact carry_ledger (congrArg (ascii "-" ++ ·) hbalance) hvalues (by rw [← htotal]; rfl)
    · intro a ha
      rw [List.cons_append, List.mem_cons, List.mem_append, List.mem_singleton] at ha
      obtain rfl | ha | rfl := ha
      · rfl
      · obtain ⟨w, -, hcredits⟩ := heach.flip.exists_of_mem ha
        exact isVBF_of_isV (isV_of_credits hcredits)
      · rfl
    · intro a ha
      rw [List.cons_append, List.mem_cons, List.mem_append, List.mem_singleton] at ha
      obtain rfl | ha | rfl := ha
      · exact wellShaped_of_isB rfl rfl hbundle
      · obtain ⟨w, -, hcredits⟩ := heach.flip.exists_of_mem ha
        exact wellShaped_of_isV (isV_of_credits hcredits)
      · exact wellShaped_of_isB rfl rfl hbundle'
  | @initTokenFusion drawn source recipient remainder ids newId hsource hbundle hbalance =>
    obtain ⟨k, sentMeta, burnedMeta, keptMeta, newUnitJson, hk, rfl⟩ := initTokenFusion_ok hrun
    obtain rfl := stoll_balance hbalance hk
    rw [atoms_appended hfresh]
    refine ⟨?_, ?_, rfl, .inr ⟨⟨_, List.mem_cons_of_mem _ (List.mem_cons_of_mem _ List.mem_cons_self), .inr rfl⟩, ?_⟩⟩
    · change Carry (_ :: [_, _] ++ [_]) _
      refine carry_ledger (congrArg (ascii "-" ++ ·) hbalance) rfl ?_
      have hsum : [(ids.length : Int) - 1, 1].sum = ids.length := by simp
      rw [hsum]
      rfl
    · simp only [fusionAtoms, List.forall_mem_cons, List.not_mem_nil, false_implies, implies_true, and_true]
      exact ⟨rfl, rfl, rfl, rfl⟩
    · simp only [fusionAtoms, List.forall_mem_cons, List.not_mem_nil, false_implies, implies_true, and_true]
      exact ⟨wellShaped_of_isV rfl, wellShaped_of_isV rfl,
        wellShaped_of_value (v := 1) (by rfl) (by norm_num) rfl hbundle, wellShaped_of_isV rfl⟩

/-- Signing keeps what the value checks read. -/
theorem verifyTokenIsotopeV_sign {H : Shake256} {secret position : ByteString} {anonymous compressed : Bool}
    {signed : Molecule} (hne : built.atoms ≠ [])
    (hsign : (sign H secret anonymous compressed).exec built = (.ok position, signed)) :
    ∃ hash, hash ≠ [] ∧ verifyTokenIsotopeV signed = verifyTokenIsotopeV { built with molecularHash := hash } := by
  obtain ⟨front, rest, hatoms⟩ := List.exists_cons_of_ne_nil hne
  obtain ⟨hash, key, signature, hhash, -, -, rfl⟩ := sign_ok_inv hatoms hsign
  refine ⟨hash, ?_, verifyTokenIsotopeV_unsigned (assignFragments_unsigned _ _) rfl⟩
  rintro rfl
  cases hashAtomsBase17_signable hhash

theorem Conserved.accepted (h : Conserved token balance ks built.atoms) (hhash : built.molecularHash ≠ [])
    (hbalance : balance < 2 ^ 53) (hsum : (ks.map fun k => |k|).sum < 2 ^ 53) : verifyTokenIsotopeV built = .ok true := by
  have hamounts : ∀ k ∈ ks, |k| < 2 ^ 53 := by
    intro k hk
    have hle := List.single_le_sum (l := ks.map fun k => |k|) (by simp) |k| (List.mem_map_of_mem hk)
    omega
  obtain ⟨hV, hrunning⟩ | ⟨hcross, hshape⟩ := h.shape
  · exact verifyTokenIsotopeV_of_V hhash hV h.carry hamounts hrunning
  · refine verifyTokenIsotopeV_of_cross hhash hcross h.kinds hshape h.carry (fun k hk => (hamounts k hk).trans (by norm_num))
      fun front hfront => ?_
    have hle := abs_sum_prefix_le hfront
    have hdiff := abs_sub (balance : Int) front.sum
    rw [Nat.abs_cast] at hdiff
    omega

end Builders

section Refusals

variable {clock : Nat → Int64} {token : ByteString} {balance : Nat} {ks : List Int} {m : Molecule} {b : Builder}

/-- A value builder refuses text that is not UTF-8, and the fusion an unsuitable unit. -/
def Refusal (e : Exception) : Prop := e = .jsonUtf8 ∨ e.kind = .knishio

theorem refusal_dumpJson (j : Json) : Act.Errs Refusal (dumpJson j) := by
  unfold dumpJson
  split
  · exact .ok _
  · exact .error (.inl rfl)

theorem refusal_unitsMeta (units : List TokenUnit) : Act.Errs Refusal (unitsMeta units) := by
  unfold unitsMeta
  split
  · exact .ok _
  · exact .map (refusal_dumpJson _) _

theorem refusal_tradeRatesMeta (tradeRates : Metas) : Act.Errs Refusal (tradeRatesMeta tradeRates) := by
  unfold tradeRatesMeta
  split
  · exact .ok _
  · exact .map (refusal_dumpJson _) _

theorem refusal_resolveUnits (tokenUnits : List TokenUnit) (ids : List ByteString) :
    Act.Errs Refusal (resolveUnits tokenUnits ids) := by
  induction ids with
  | nil => exact .ok _
  | cons id ids ih =>
    unfold resolveUnits
    split
    · exact .error (.inr rfl)
    · exact .map ih _

theorem refusal_stoll {text : ByteString} {k : Int} (htext : text = Decimal.ofInt k) (hk : |k| < 2 ^ 53) :
    Act.Errs Refusal (stoll text) := by
  obtain ⟨hlow, hhigh⟩ := abs_lt.mp hk
  rw [htext, stoll_ofInt (by omega) (by omega)]
  exact .ok _

theorem refusal_signed {k : Int} (hk : |k| < 2 ^ 55) : Act.Errs Refusal (signed 64 k) := by
  obtain ⟨hlow, hhigh⟩ := abs_lt.mp hk
  rw [signed_ok.mpr ⟨rfl, by norm_num; omega, by norm_num; omega⟩]
  exact .ok _

theorem refusal_credits {tokenOf : Wallet → ByteString} {recipientMeta : Wallet → Throws Metas}
    (hmeta : ∀ w, Act.Errs Refusal (recipientMeta w)) {recipients : List Wallet} (hlength : ks.length = recipients.length)
    (hsum : (ks.map fun k => |k|).sum < 2 ^ 53) (index : Nat) :
    Act.Errs Refusal (credits clock tokenOf recipientMeta index 0 recipients (ks.map Decimal.ofInt)) := by
  intro e he
  have hrange : ∀ k ∈ ks, -2 ^ 63 ≤ k ∧ k < 2 ^ 63 := by
    intro k hk
    have hle := List.single_le_sum (l := ks.map fun k => |k|) (by simp) |k| (List.mem_map_of_mem hk)
    have hbounds := abs_le.mp hle
    omega
  obtain ⟨w, -, hw⟩ | ⟨front, hfront, hout⟩ := credits_error hlength hrange he
  · exact hmeta w e hw
  · have hbounds := abs_le.mp (abs_sum_prefix_le hfront)
    omega

theorem refusal_run (h : Spends token balance ks b) (hbalance : balance < 2 ^ 53)
    (hsum : (ks.map fun k => |k|).sum < 2 ^ 53) : Act.Errs Refusal ((b.run clock).run m) := by
  have hremainder : |(balance : Int) - ks.sum| < 2 ^ 55 := by
    have hle := abs_sum_prefix_le (List.prefix_refl ks)
    have hdiff := abs_sub (balance : Int) ks.sum
    rw [Nat.abs_cast] at hdiff
    omega
  have hsmall : |(balance : Int)| < 2 ^ 53 := by
    rw [Nat.abs_cast]
    exact_mod_cast hbalance
  have htext : Decimal.ofNat balance = Decimal.ofInt balance := by simp [Decimal.ofInt]
  cases h with
  | initValues hsource hrecipients hremainder' hbalance' hlength =>
    change Act.Errs Refusal ((initValues clock _ _ _ _).run m)
    rw [run_initValues]
    refine .bind (refusal_unitsMeta _) fun _ => .bind_of_ok (refusal_credits (fun _ => refusal_unitsMeta _) hlength hsum _)
      fun r hr => .bind (refusal_unitsMeta _) fun _ => ?_
    refine .bind_of_ok (refusal_stoll (hbalance'.trans htext) hsmall) fun k hk => ?_
    obtain rfl := stoll_balance hbalance' hk
    obtain ⟨htotal, -⟩ := credits_total hlength (by norm_num) hr
    rw [htotal, zero_add]
    exact .bind (refusal_signed hremainder) fun _ => .ok _
  | initDepositBuffer hsource hbuffer hremainder' hbundle hbalance' =>
    change Act.Errs Refusal ((initDepositBuffer clock _ _ _ _ _).run m)
    rw [run_initDepositBuffer]
    refine .bind (refusal_tradeRatesMeta _) fun _ => .bind_of_ok (refusal_stoll (hbalance'.trans htext) hsmall) fun k hk => ?_
    obtain rfl := stoll_balance hbalance' hk
    refine .bind_of_ok (refusal_stoll rfl (by simpa using hsum)) fun deposited hdeposited => ?_
    obtain rfl := stoll_ofInt_ok hdeposited
    rw [List.sum_singleton] at hremainder
    exact .bind (refusal_signed hremainder) fun _ => .ok _
  | initWithdrawBuffer hsource hrecipients hremainder' hbundle hbundle' hbalance' hlength =>
    change Act.Errs Refusal ((initWithdrawBuffer clock _ _ _ _).run m)
    rw [run_initWithdrawBuffer]
    refine .bind (refusal_unitsMeta _) fun _ => .bind_of_ok (refusal_credits (fun _ => .ok _) hlength hsum _) fun r hr => ?_
    refine .bind_of_ok (refusal_stoll (hbalance'.trans htext) hsmall) fun k hk => ?_
    obtain rfl := stoll_balance hbalance' hk
    obtain ⟨htotal, -⟩ := credits_total hlength (by norm_num) hr
    rw [htotal, zero_add]
    exact .bind (refusal_signed hremainder) fun _ => .ok _
  | initTokenFusion hsource hbundle hbalance' =>
    change Act.Errs Refusal ((initTokenFusion clock _ _ _ _ _ _).run m)
    rw [run_initTokenFusion]
    split
    · exact .error (.inr rfl)
    refine .bind_of_ok (refusal_resolveUnits _ _) fun fused hfused => ?_
    split
    · exact .error (.inr rfl)
    refine .bind (refusal_dumpJson _) fun _ => .bind_of_ok (refusal_stoll (hbalance'.trans htext) hsmall) fun k hk => ?_
    obtain rfl := stoll_balance hbalance' hk
    refine .bind (refusal_unitsMeta _) fun _ => .bind (refusal_unitsMeta _) fun _ => ?_
    rw [length_resolveUnits hfused]
    exact .bind (refusal_signed (by simpa using hremainder)) fun _ => .bind (refusal_unitsMeta _) fun _ => .ok _

end Refusals

/-- A value builder on a fresh molecule refuses its input, or the values that it writes add up to zero, its atoms
are numbered in order, and the check accepts the molecule once it is signed. -/
theorem value_builders_conserve (clock : Nat → Int64) {token : ByteString} {balance : Nat} {ks : List Int} {b : Builder}
    (h : Spends token balance ks b) (hbalance : balance < 2 ^ 53) (hsum : (ks.map fun k => |k|).sum < 2 ^ 53)
    {m : Molecule} (hfresh : m.atoms = []) :
    (∀ e, (b.run clock).run m = .error e → Refusal e) ∧
      ∀ atoms built, (b.run clock).run m = .ok (atoms, built) →
        (∀ a ∈ built.atoms, isVBF a = true ∧ ∃ v, decimalInt? a.value = some v) ∧ exactSum isVBF built.atoms = 0 ∧
        built.atoms.map (·.index) = (List.range built.atoms.length).map Int32.ofNat ∧
        ∀ H secret anonymous compressed position signed,
          (sign H secret anonymous compressed).exec built = (.ok position, signed) →
            verifyTokenIsotopeV signed = .ok true := by
  refine ⟨fun e he => refusal_run h hbalance hsum e he, fun atoms built hrun => ?_⟩
  have hconserved := conserved_of_spends h hfresh hrun
  have hne : built.atoms ≠ [] := by
    intro hnil
    have hcarry := hconserved.carry
    rw [Carry, hnil] at hcarry
    cases hcarry
  refine ⟨fun a ha => ⟨hconserved.kinds a ha, ?_⟩, ?_, hconserved.indices, ?_⟩
  · obtain ⟨v, -, hv⟩ := hconserved.carry.value ha
    exact ⟨v, hv⟩
  · rw [hconserved.carry.exactSum hconserved.kinds, sum_ledgerValues]
  · intro H secret anonymous compressed position signed hsign
    obtain ⟨hash, hhash, hsame⟩ := verifyTokenIsotopeV_sign hne hsign
    rw [hsame]
    have hrehashed : Conserved token balance ks ({ built with molecularHash := hash } : Molecule).atoms := hconserved
    exact hrehashed.accepted hhash hbalance hsum

/-- A transfer of five of seven tokens. -/
theorem value_builders_conserve_transfer :
    Spends (ascii "T") 7 [5] (.initValues payer [shadow] [Decimal.ofInt 5] payer) ∧
      ∀ atoms built, ((Builder.initValues payer [shadow] [Decimal.ofInt 5] payer).run fun _ => 0).run unbuilt =
          .ok (atoms, built) →
        (∀ a ∈ built.atoms, isVBF a = true ∧ ∃ v, decimalInt? a.value = some v) ∧ exactSum isVBF built.atoms = 0 ∧
        built.atoms.map (·.index) = (List.range built.atoms.length).map Int32.ofNat ∧
        ∀ H secret anonymous compressed position signed,
          (sign H secret anonymous compressed).exec built = (.ok position, signed) →
            verifyTokenIsotopeV signed = .ok true := by
  have hspends : Spends (ascii "T") 7 [5] (.initValues payer [shadow] [Decimal.ofInt 5] payer) := by
    change Spends _ 7 [5] (.initValues payer [shadow] ([5].map Decimal.ofInt) payer)
    refine .initValues rfl (fun w hw => ?_) rfl rfl rfl fun front hfront => ?_
    · rw [List.mem_singleton.mp hw]
      rfl
    · cases front with
      | nil => norm_num
      | cons k front =>
        obtain ⟨rfl, hrest⟩ := List.cons_prefix_cons.mp hfront
        rw [List.prefix_nil.mp hrest]
        norm_num
  exact ⟨hspends, (value_builders_conserve (fun _ => 0) hspends (by norm_num) (by norm_num) (m := unbuilt) rfl).2⟩

/-- A wallet with the largest balance below the bound. -/
def rich : Wallet := { payer with balance := Decimal.ofNat (2 ^ 53 - 1) }

/-- The molecule that takes two tokens from each of two recipients. -/
def rounded : Molecule where
  createdAt := 0
  sourceWallet := some rich
  atoms := [debitAtom 0 "V" rich [] [] [], creditAtom 0 "V" shadow (ascii "T") (ascii "-2") (ascii "0d") [] 1,
    creditAtom 0 "V" shadow (ascii "T") (ascii "-2") (ascii "0d") [] 2,
    creditAtom 0 "V" rich (ascii "T") (ascii "9007199254740995") (ascii "0c") [] 3]

theorem addressAt_rich : Wallet.addressAt (.constant 0) (ascii "5ec7e7") (ascii "T") (ascii "0a") 1 = .ok rich.address := by
  obtain ⟨sum, hkey⟩ := Wallet.generateWalletKey_eq (.constant 0) (ascii "T") (v := 1) (.inl rfl)
    (show ascii "5ec7e7" ≠ [] by decide) (show ascii "0a" ≠ [] by decide)
  simp [rich, payer, Wallet.addressAt, hkey, Except.map, Except.toOption]

/-- Two negative amounts bring the running `double` beyond the integers that it holds. -/
theorem initValues_rounds :
    (2 ^ 53 - 1 : Nat) < 2 ^ 53 ∧ (([-2, -2] : List Int).map fun k => |k|).sum < 2 ^ 53 ∧
      ∃ atoms position m,
        ((Builder.initValues rich [shadow, shadow] (([-2, -2] : List Int).map Decimal.ofInt) rich).run fun _ => 0).run
            { createdAt := 0, sourceWallet := some rich } = .ok (atoms, rounded) ∧
          (sign (.constant 0) (ascii "5ec7e7") false true).exec rounded = (.ok position, m) ∧
          verifyTokenIsotopeV m = .ok false := by
  have hbuild : ((Builder.initValues rich [shadow, shadow] (([-2, -2] : List Int).map Decimal.ofInt) rich).run
      fun _ => 0).run { createdAt := 0, sourceWallet := some rich } = .ok (rounded.atoms, rounded) := by
    decide
  obtain ⟨hash, key, signature, hhashed, hkey, -, hsig⟩ := sign_ready (m := rounded) (debitAtom 0 "V" rich [] [] [])
    addressAt_rich (fun hversioned => by simp [rounded, debitAtom, Atom.new] at hversioned) true
  have hsign := sign_exec (m := rounded) rfl false hhashed hkey hsig
  obtain ⟨hash, hhash, hsame⟩ := verifyTokenIsotopeV_sign (List.cons_ne_nil _ _) hsign
  refine ⟨by norm_num, by norm_num, _, _, _, hbuild, hsign, ?_⟩
  have hsums : tokenSums [] rounded.atoms = .ok false := by decide +kernel
  have hcross : rounded.atoms.any (fun a => isB a || isF a) = false := by decide
  rw [hsame]
  exact (verifyTokenIsotopeV_rehashed (List.cons_ne_nil _ _) hcross hhash).trans hsums

end Molecule

end KnishIO
