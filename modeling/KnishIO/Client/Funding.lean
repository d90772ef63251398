import KnishIO.Client.UserRuns
import KnishIO.Client.Writing
import KnishIO.Molecule.Conserving
import KnishIO.Molecule.Fusion

open ByteString

namespace KnishIO

section Wallets

/-- An atom of a token can be written for the wallet. -/
structure Wallet.Takes (slug : ByteString) (wallet : Wallet) : Prop extends wallet.Encoded where
  token_eq : wallet.token = slug
  units : Molecule.Writable wallet.tokenUnits

/-- The wallet holds a balance, written in the canonical form. -/
structure Wallet.Holds (slug : ByteString) (held : Nat) (wallet : Wallet) : Prop extends wallet.Takes slug where
  balance_eq : wallet.balance = Decimal.ofNat held
  owned : wallet.bundle ≠ []

variable {token : ByteString} {balance : Nat} {wallet : Wallet}

theorem utf8_minus (n : Nat) : Utf8.valid (ascii "-" ++ Decimal.ofNat n) = true := by
  refine Utf8.valid_of_ascii fun c hc => ?_
  rcases List.mem_append.mp hc with hc | hc
  · obtain rfl := List.mem_singleton.mp hc
    decide
  · exact Decimal.isDigit_ascii (Decimal.isDigit_of_mem_ofNat hc)

theorem unitsMeta_written {units : List TokenUnit} (h : Molecule.Writable units) :
    ∃ metas, Molecule.unitsMeta units = .ok metas ∧ ∀ m ∈ metas, Utf8.valid m.1 = true ∧ Utf8.valid m.2 = true := by
  rw [Molecule.unitsMeta]
  split_ifs
  · exact ⟨[], rfl, by simp⟩
  · obtain ⟨text, htext, hutf8⟩ := utf8_dumpJson (F := integersOnly) (j := .arr (units.map Wallet.unitTriple))
      (Json.valid_arr (List.forall_mem_map.mpr fun u hu => Molecule.valid_unitTriple _ (h u hu)))
    rw [Wallet.unitsJson, htext]
    exact ⟨_, rfl, by simpa using ⟨by decide, hutf8⟩⟩

theorem tradeRatesMeta_written {tradeRates : Metas}
    (h : ∀ m ∈ tradeRates, Utf8.valid m.1 = true ∧ Utf8.valid m.2 = true) :
    ∃ metas, Molecule.tradeRatesMeta tradeRates = .ok metas ∧
      ∀ m ∈ metas, Utf8.valid m.1 = true ∧ Utf8.valid m.2 = true := by
  rw [Molecule.tradeRatesMeta]
  split_ifs
  · exact ⟨[], rfl, by simp⟩
  · obtain ⟨text, htext, hutf8⟩ := utf8_dumpJson (F := integersOnly)
      (j := Json.object (tradeRates.map fun kv => (kv.1, Json.str kv.2)))
      (Json.valid_object (List.forall_mem_map.mpr h))
    rw [htext]
    exact ⟨_, rfl, by simpa using ⟨by decide, hutf8⟩⟩

end Wallets

namespace Molecule

section Atoms

variable {clock : Nat → Int64} {token : ByteString} {balance : Nat} {wallet : Wallet}

/-- An unsigned atom of UTF-8 strings. -/
def Fresh (a : Atom) : Prop := a.WireUtf8 ∧ a.otsFragment = []

theorem fresh_debitAtom (createdAt : Int64) (h : wallet.Holds token balance) {isotope : String}
    (hisotope : Utf8.valid (ascii isotope) = true) {metaType metaId : ByteString} {metas : Metas}
    (hmetaType : Utf8.valid metaType = true) (hmetaId : Utf8.valid metaId = true)
    (hmetas : ∀ m ∈ metas, Utf8.valid m.1 = true ∧ Utf8.valid m.2 = true) :
    Fresh (debitAtom createdAt isotope wallet metaType metaId metas) :=
  ⟨Atom.wireUtf8_new _ _ h.position h.address hisotope h.token (h.balance_eq ▸ utf8_minus balance) h.batchId hmetaType
    hmetaId hmetas, rfl⟩

theorem fresh_creditAtom (createdAt : Int64) (h : wallet.Encoded) {isotope : String}
    (hisotope : Utf8.valid (ascii isotope) = true) {token value bundle : ByteString} {metas : Metas}
    (htoken : Utf8.valid token = true) (hvalue : Utf8.valid value = true) (hbundle : Utf8.valid bundle = true)
    (hmetas : ∀ m ∈ metas, Utf8.valid m.1 = true ∧ Utf8.valid m.2 = true) (index : Nat) :
    Fresh (creditAtom createdAt isotope wallet token value bundle metas index) :=
  ⟨Atom.wireUtf8_new _ _ h.position h.address hisotope htoken hvalue h.batchId (by decide) hbundle hmetas, rfl⟩

/-- The loop over the recipients returns where no meta and no running total fails. -/
theorem credits_written {tokenOf : Wallet → ByteString} {recipientMeta : Wallet → Throws Metas} {recipients : List Wallet}
    (hencoded : ∀ r ∈ recipients, r.Encoded ∧ Utf8.valid (tokenOf r) = true)
    (hmeta : ∀ r ∈ recipients, ∃ metas, recipientMeta r = .ok metas ∧
      ∀ m ∈ metas, Utf8.valid m.1 = true ∧ Utf8.valid m.2 = true)
    {ks : List Int} (hlength : ks.length = recipients.length) (hnonneg : ∀ k ∈ ks, 0 ≤ k) {total : Int} (htotal : 0 ≤ total)
    (hsum : total + ks.sum < 2 ^ 63) (index : Nat) :
    ∃ r, credits clock tokenOf recipientMeta index total recipients (ks.map Decimal.ofInt) = .ok r ∧ ∀ a ∈ r.1, Fresh a := by
  induction recipients generalizing ks total index with
  | nil => exact ⟨_, rfl, by simp⟩
  | cons recipient recipients ih =>
    cases ks with
    | nil => cases hlength
    | cons k ks =>
      obtain ⟨⟨hfirst, htoken⟩, hrest⟩ := List.forall_mem_cons.mp hencoded
      obtain ⟨⟨metas, hmetas, hutf8⟩, hrestMeta⟩ := List.forall_mem_cons.mp hmeta
      obtain ⟨hk, hks⟩ := List.forall_mem_cons.mp hnonneg
      have htail : 0 ≤ ks.sum := List.sum_nonneg hks
      rw [List.sum_cons] at hsum
      have hadded : stoll (Decimal.ofInt k) = .ok k := stoll_ofInt (by omega) (by omega)
      have hnext : KnishIO.signed 64 (total + k) = .ok (total + k) := signed_ok.mpr ⟨rfl, by omega, by omega⟩
      obtain ⟨r, hr, hfresh⟩ := ih hrest hrestMeta (by simpa using hlength) hks (show 0 ≤ total + k by omega) (by omega)
        (index + 1)
      rw [List.map_cons, credits, Throws.bind_of_ok hadded, Throws.bind_of_ok hnext, Throws.bind_of_ok hmetas,
        Throws.bind_of_ok hr]
      refine ⟨_, rfl, List.forall_mem_cons.mpr ⟨?_, hfresh⟩⟩
      exact fresh_creditAtom _ hfirst (by decide) htoken (Atom.utf8_ofInt k) hfirst.bundle hutf8 index

end Atoms

section Builders

variable {clock : Nat → Int64} {token : ByteString} {balance : Nat} {ks : List Int} {m : Molecule} {b : Builder}

/-- A call of a value builder between wallets of one token, all of which can be written. -/
inductive Affords (token : ByteString) (balance : Nat) : List Int → Builder → Prop where
  | initValue {source recipient remainder : Wallet} {k : Int} :
      source.Holds token balance → recipient.Takes token → remainder.Takes token →
      Affords token balance [k] (.initValue source recipient remainder (Decimal.ofInt k))
  | initValues {source remainder : Wallet} {recipients : List Wallet} {ks : List Int} :
      source.Holds token balance → (∀ r ∈ recipients, r.Takes token) → remainder.Takes token →
      ks.length = recipients.length →
      Affords token balance ks (.initValues source recipients (ks.map Decimal.ofInt) remainder)
  | initDepositBuffer {source buffer remainder : Wallet} {k : Int} {tradeRates : Metas} :
      source.Holds token balance → buffer.Takes token → remainder.Takes token →
      (∀ m ∈ tradeRates, Utf8.valid m.1 = true ∧ Utf8.valid m.2 = true) →
      Affords token balance [k] (.initDepositBuffer source buffer remainder (Decimal.ofInt k) tradeRates)
  | initWithdrawBuffer {source remainder : Wallet} {recipients : List Wallet} {ks : List Int} :
      source.Holds token balance → (∀ r ∈ recipients, r.Takes token) → remainder.Takes token → remainder.bundle ≠ [] →
      ks.length = recipients.length →
      Affords token balance ks (.initWithdrawBuffer source recipients (ks.map Decimal.ofInt) remainder)

/-- No amount is negative, and the balance covers all of them. -/
structure Within (balance : Nat) (ks : List Int) : Prop where
  nonneg : ∀ k ∈ ks, 0 ≤ k
  covered : ks.sum ≤ balance

theorem Within.sum_prefix (h : Within balance ks) {front : List Int} (hfront : front <+: ks) :
    0 ≤ front.sum ∧ front.sum ≤ balance := by
  obtain ⟨rest, rfl⟩ := hfront
  obtain ⟨hfirst, hrest⟩ := List.forall_mem_append.mp h.nonneg
  have hsum := h.covered
  have hlow := List.sum_nonneg hfirst
  have htail := List.sum_nonneg hrest
  rw [List.sum_append] at hsum
  omega

/-- What a builder leaves on a fresh molecule: unsigned atoms that can be written, the first one at the place of the
source, and that pass the balance on. -/
structure Pays (token : ByteString) (balance : Nat) (ks : List Int) (source : Wallet) (m built : Molecule) : Prop where
  appended_eq : built = m.appended built.atoms
  fresh : ∀ a ∈ built.atoms, Fresh a
  front : ∃ a rest, built.atoms = a :: rest ∧ a.token = token ∧ a.position = source.position ∧ a.walletAddress = source.address
  conserved : Conserved token balance ks built.atoms

theorem appended_appended (hfresh : m.atoms = []) (new : List Atom) : m.appended new = m.appended (m.appended new).atoms := by
  rw [atoms_appended hfresh]

theorem stoll_held {w : Wallet} (h : w.Holds token balance) (hbalance : balance < 2 ^ 53) :
    stoll w.balance = .ok (balance : Int) := by
  rw [h.balance_eq, show Decimal.ofNat balance = Decimal.ofInt balance by simp [Decimal.ofInt]]
  exact stoll_ofInt (by omega) (by omega)

/-- The single-recipient builder converts to `int`. -/
theorem pays_initValue {source recipient remainder : Wallet} {k : Int} (hsource : source.Holds token balance)
    (hrecipient : recipient.Takes token) (hremainder : remainder.Takes token) (hks : Within balance [k])
    (hbalance : balance < 2 ^ 53) (hfresh : m.atoms = []) :
    (∃ atoms built, (initValue clock source recipient remainder (Decimal.ofInt k)).run m = .ok (atoms, built) ∧
        Pays token balance [k] source m built) ∨
      2 ^ 31 ≤ balance ∧ ∃ e, (initValue clock source recipient remainder (Decimal.ofInt k)).run m = .error e := by
  have hk : 0 ≤ k ∧ k ≤ balance := by simpa using hks.sum_prefix List.prefix_rfl
  have hbalanceEq : source.balance = Decimal.ofInt balance := by simp [hsource.balance_eq, Decimal.ofInt]
  by_cases hint : balance < 2 ^ 31
  · have hreturns : ∃ atoms built, (initValue clock source recipient remainder (Decimal.ofInt k)).run m = .ok (atoms, built) :=
      (initValue_returns_iff hbalanceEq).mpr
        ⟨hsource.units, hrecipient.units, hremainder.units, by omega, by omega, by omega⟩
    obtain ⟨atoms, built, hrun⟩ := hreturns
    obtain ⟨sourceMeta, hsourceMeta, hsourceUtf8⟩ := unitsMeta_written hsource.units
    obtain ⟨recipientMeta, hrecipientMeta, hrecipientUtf8⟩ := unitsMeta_written hrecipient.units
    obtain ⟨remainderMeta, hremainderMeta, hremainderUtf8⟩ := unitsMeta_written hremainder.units
    obtain ⟨sourceMeta', recipientMeta', remainderMeta', held, spent, hsource', hrecipient', hremainder', hheld, hspent, rfl⟩ :=
      initValue_ok hrun
    obtain rfl := Except.ok.inj (hsourceMeta.symm.trans hsource')
    obtain rfl := Except.ok.inj (hrecipientMeta.symm.trans hrecipient')
    obtain rfl := Except.ok.inj (hremainderMeta.symm.trans hremainder')
    obtain rfl := stoi_ofInt_ok hspent
    obtain rfl : held = balance := stoi_ofInt_ok (hbalanceEq ▸ hheld)
    refine .inl ⟨atoms, _, hrun, appended_appended hfresh _, ?_, ?_, ?_⟩
    · rw [atoms_appended hfresh]
      simp only [List.forall_mem_cons, List.not_mem_nil, false_implies, implies_true, and_true]
      exact ⟨fresh_debitAtom _ hsource (by decide) rfl rfl hsourceUtf8,
        fresh_creditAtom _ hrecipient.toEncoded (by decide) hrecipient.token (Atom.utf8_ofInt _) hrecipient.bundle
          hrecipientUtf8 1,
        fresh_creditAtom _ hremainder.toEncoded (by decide) hremainder.token (Atom.utf8_ofInt _) hremainder.bundle
          hremainderUtf8 2⟩
    · rw [atoms_appended hfresh]
      exact ⟨_, _, rfl, hsource.token_eq, rfl, rfl⟩
    · rw [atoms_appended hfresh]
      refine ⟨?_, ?_, rfl, .inl ⟨?_, fun front hfront => ?_⟩⟩
      · change Carry (_ :: [_] ++ [_]) _
        refine carry_ledger (congrArg (ascii "-" ++ ·) hsource.balance_eq) rfl ?_
        rw [List.sum_singleton]
        rfl
      · simp only [List.forall_mem_cons, List.not_mem_nil, false_implies, implies_true, and_true]
        exact ⟨rfl, rfl, rfl⟩
      · simp only [List.forall_mem_cons, List.not_mem_nil, false_implies, implies_true, and_true]
        exact ⟨⟨rfl, hsource.token_eq⟩, ⟨rfl, hrecipient.token_eq⟩, rfl, hremainder.token_eq⟩
      · obtain ⟨hlow, hhigh⟩ := hks.sum_prefix hfront
        rw [abs_lt]
        omega
  · refine .inr ⟨by omega, ?_⟩
    cases hrun : (initValue clock source recipient remainder (Decimal.ofInt k)).run m with
    | error e => exact ⟨e, rfl⟩
    | ok built =>
      obtain ⟨-, -, -, hrange, -⟩ := (initValue_returns_iff hbalanceEq).mp ⟨built.1, built.2, hrun⟩
      omega

/-- What is left of the balance is a `long long`. -/
theorem signed_left (hks : Within balance ks) (hbalance : balance < 2 ^ 53) :
    KnishIO.signed 64 ((balance : Int) - ks.sum) = .ok ((balance : Int) - ks.sum) := by
  obtain ⟨hlow, hhigh⟩ := hks.sum_prefix List.prefix_rfl
  exact signed_ok.mpr ⟨rfl, by omega, by omega⟩

/-- The credits of the recipients, with the sum of the amounts. -/
theorem credits_within (clock : Nat → Int64) (tokenOf : Wallet → ByteString) (recipientMeta : Wallet → Throws Metas)
    {recipients : List Wallet}
    (hencoded : ∀ r ∈ recipients, r.Encoded ∧ Utf8.valid (tokenOf r) = true)
    (hmeta : ∀ r ∈ recipients, ∃ metas, recipientMeta r = .ok metas ∧
      ∀ m ∈ metas, Utf8.valid m.1 = true ∧ Utf8.valid m.2 = true)
    (hlength : ks.length = recipients.length) (hks : Within balance ks) (hbalance : balance < 2 ^ 53) :
    ∃ credited, credits clock tokenOf recipientMeta 1 0 recipients (ks.map Decimal.ofInt) = .ok (credited, ks.sum) ∧
      ∀ a ∈ credited, Fresh a := by
  have hsum := hks.covered
  have hwritten : ∃ r, credits clock tokenOf recipientMeta 1 0 recipients (ks.map Decimal.ofInt) = .ok r ∧
      ∀ a ∈ r.1, Fresh a := credits_written hencoded hmeta hlength hks.nonneg le_rfl (by omega) 1
  obtain ⟨⟨credited, total⟩, hr, hfresh⟩ := hwritten
  obtain ⟨htotal, -⟩ := credits_total hlength (by norm_num) hr
  rw [zero_add] at htotal
  exact ⟨credited, htotal ▸ hr, hfresh⟩

theorem pays_initValues {source remainder : Wallet} {recipients : List Wallet} (hsource : source.Holds token balance)
    (hrecipients : ∀ r ∈ recipients, r.Takes token) (hremainder : remainder.Takes token)
    (hlength : ks.length = recipients.length) (hks : Within balance ks) (hbalance : balance < 2 ^ 53) (hfresh : m.atoms = []) :
    ∃ atoms built, (initValues clock source recipients (ks.map Decimal.ofInt) remainder).run m = .ok (atoms, built) ∧
      Pays token balance ks source m built := by
  obtain ⟨sourceMeta, hsourceMeta, hsourceUtf8⟩ := unitsMeta_written hsource.units
  obtain ⟨remainderMeta, hremainderMeta, hremainderUtf8⟩ := unitsMeta_written hremainder.units
  obtain ⟨credited, hcredits, hcreditedFresh⟩ := credits_within clock (·.token) _
    (fun r hr => ⟨(hrecipients r hr).toEncoded, (hrecipients r hr).token⟩)
    (fun r hr => unitsMeta_written (hrecipients r hr).units) hlength hks hbalance
  let built := m.appended (debitAtom (clock 0) "V" source [] [] sourceMeta :: credited ++
    [creditAtom (clock (1 + recipients.length)) "V" remainder remainder.token (Decimal.ofInt (balance - ks.sum))
      remainder.bundle remainderMeta (1 + recipients.length)])
  have hrun : (initValues clock source recipients (ks.map Decimal.ofInt) remainder).run m = .ok (built.atoms, built) := by
    rw [run_initValues, Throws.bind_of_ok hsourceMeta, Throws.bind_of_ok hcredits, Throws.bind_of_ok hremainderMeta,
      Throws.bind_of_ok (stoll_held hsource hbalance), Throws.bind_of_ok (signed_left hks hbalance)]
    rfl
  refine ⟨_, built, hrun, appended_appended hfresh _, ?_, ?_, ?_⟩
  · rw [atoms_appended hfresh, List.forall_mem_append, List.forall_mem_cons, List.forall_mem_singleton]
    exact ⟨⟨fresh_debitAtom _ hsource (by decide) rfl rfl hsourceUtf8, hcreditedFresh⟩,
      fresh_creditAtom _ hremainder.toEncoded (by decide) hremainder.token (Atom.utf8_ofInt _) hremainder.bundle
        hremainderUtf8 _⟩
  · rw [atoms_appended hfresh]
    exact ⟨_, _, rfl, hsource.token_eq, rfl, rfl⟩
  · refine conserved_of_spends (b := .initValues source recipients (ks.map Decimal.ofInt) remainder) (.initValues
      hsource.token_eq (fun r hr => (hrecipients r hr).token_eq) hremainder.token_eq hsource.balance_eq hlength
      fun front hfront => ?_) hfresh hrun
    obtain ⟨hlow, hhigh⟩ := hks.sum_prefix hfront
    rw [abs_lt]
    omega

theorem pays_initDepositBuffer {source buffer remainder : Wallet} {k : Int} {tradeRates : Metas}
    (hsource : source.Holds token balance) (hbuffer : buffer.Takes token) (hremainder : remainder.Takes token)
    (htradeRates : ∀ m ∈ tradeRates, Utf8.valid m.1 = true ∧ Utf8.valid m.2 = true) (hks : Within balance [k])
    (hbalance : balance < 2 ^ 53) (hfresh : m.atoms = []) :
    ∃ atoms built, (initDepositBuffer clock source buffer remainder (Decimal.ofInt k) tradeRates).run m = .ok (atoms, built) ∧
      Pays token balance [k] source m built := by
  obtain ⟨bufferMeta, hbufferMeta, hbufferUtf8⟩ := tradeRatesMeta_written htradeRates
  have hk : 0 ≤ k ∧ k ≤ balance := by simpa using hks.sum_prefix List.prefix_rfl
  have hdeposited : stoll (Decimal.ofInt k) = .ok k := stoll_ofInt (by omega) (by omega)
  have hleft := signed_left hks hbalance
  rw [List.sum_singleton] at hleft
  let built := m.appended [debitAtom (clock 0) "V" source [] [] [],
    creditAtom (clock 1) "B" buffer buffer.token (Decimal.ofInt k) source.bundle bufferMeta 1,
    creditAtom (clock 2) "V" remainder remainder.token (Decimal.ofInt (balance - k)) source.bundle [] 2]
  have hrun : (initDepositBuffer clock source buffer remainder (Decimal.ofInt k) tradeRates).run m =
      .ok (built.atoms, built) := by
    rw [run_initDepositBuffer, Throws.bind_of_ok hbufferMeta, Throws.bind_of_ok (stoll_held hsource hbalance),
      Throws.bind_of_ok hdeposited, Throws.bind_of_ok hleft]
    rfl
  refine ⟨_, built, hrun, appended_appended hfresh _, ?_, ?_, ?_⟩
  · rw [atoms_appended hfresh]
    simp only [List.forall_mem_cons, List.not_mem_nil, false_implies, implies_true, and_true]
    exact ⟨fresh_debitAtom _ hsource (by decide) rfl rfl (by simp),
      fresh_creditAtom _ hbuffer.toEncoded (by decide) hbuffer.token (Atom.utf8_ofInt k) hsource.bundle hbufferUtf8 1,
      fresh_creditAtom _ hremainder.toEncoded (by decide) hremainder.token (Atom.utf8_ofInt _) hsource.bundle (by simp) 2⟩
  · rw [atoms_appended hfresh]
    exact ⟨_, _, rfl, hsource.token_eq, rfl, rfl⟩
  · exact conserved_of_spends (b := .initDepositBuffer source buffer remainder (Decimal.ofInt k) tradeRates)
      (.initDepositBuffer hsource.token_eq hbuffer.token_eq hremainder.token_eq hsource.owned hsource.balance_eq) hfresh hrun

theorem pays_initWithdrawBuffer {source remainder : Wallet} {recipients : List Wallet} (hsource : source.Holds token balance)
    (hrecipients : ∀ r ∈ recipients, r.Takes token) (hremainder : remainder.Takes token) (howned : remainder.bundle ≠ [])
    (hlength : ks.length = recipients.length) (hks : Within balance ks) (hbalance : balance < 2 ^ 53) (hfresh : m.atoms = []) :
    ∃ atoms built, (initWithdrawBuffer clock source recipients (ks.map Decimal.ofInt) remainder).run m = .ok (atoms, built) ∧
      Pays token balance ks source m built := by
  obtain ⟨sourceMeta, hsourceMeta, hsourceUtf8⟩ := unitsMeta_written hsource.units
  obtain ⟨credited, hcredits, hcreditedFresh⟩ := credits_within clock (fun _ => source.token)
    (fun _ => .ok []) (fun r hr => ⟨(hrecipients r hr).toEncoded, hsource.token⟩)
    (fun r _ => ⟨[], rfl, by simp⟩) hlength hks hbalance
  let built := m.appended (debitAtom (clock 0) "B" source (ascii "walletBundle") source.bundle sourceMeta :: credited ++
    [creditAtom (clock (1 + recipients.length)) "B" remainder remainder.token (Decimal.ofInt (balance - ks.sum))
      remainder.bundle [] (1 + recipients.length)])
  have hrun : (initWithdrawBuffer clock source recipients (ks.map Decimal.ofInt) remainder).run m = .ok (built.atoms, built) := by
    rw [run_initWithdrawBuffer, Throws.bind_of_ok hsourceMeta, Throws.bind_of_ok hcredits,
      Throws.bind_of_ok (stoll_held hsource hbalance), Throws.bind_of_ok (signed_left hks hbalance)]
    rfl
  refine ⟨_, built, hrun, appended_appended hfresh _, ?_, ?_, ?_⟩
  · rw [atoms_appended hfresh, List.forall_mem_append, List.forall_mem_cons, List.forall_mem_singleton]
    exact ⟨⟨fresh_debitAtom _ hsource (by decide) (by decide) hsource.bundle hsourceUtf8, hcreditedFresh⟩,
      fresh_creditAtom _ hremainder.toEncoded (by decide) hremainder.token (Atom.utf8_ofInt _) hremainder.bundle (by simp) _⟩
  · rw [atoms_appended hfresh]
    exact ⟨_, _, rfl, hsource.token_eq, rfl, rfl⟩
  · exact conserved_of_spends (b := .initWithdrawBuffer source recipients (ks.map Decimal.ofInt) remainder)
      (.initWithdrawBuffer hsource.token_eq (fun r hr => (hrecipients r hr).token_eq) hremainder.token_eq hsource.owned howned
        hsource.balance_eq hlength) hfresh hrun

/-- Within the balance only the `int` of the single-recipient builder can be too small. -/
theorem Affords.builds (h : Affords token balance ks b) (clock : Nat → Int64) (m : Molecule) (hks : Within balance ks)
    (hbalance : balance < 2 ^ 53) (hfresh : m.atoms = []) :
    (∃ atoms built, (b.run clock).run m = .ok (atoms, built) ∧ Pays token balance ks b.source m built) ∨
      2 ^ 31 ≤ balance ∧ ∃ e, (b.run clock).run m = .error e := by
  cases h with
  | initValue hsource hrecipient hremainder => exact pays_initValue hsource hrecipient hremainder hks hbalance hfresh
  | initValues hsource hrecipients hremainder hlength =>
    exact .inl (pays_initValues hsource hrecipients hremainder hlength hks hbalance hfresh)
  | initDepositBuffer hsource hbuffer hremainder htradeRates =>
    exact .inl (pays_initDepositBuffer hsource hbuffer hremainder htradeRates hks hbalance hfresh)
  | initWithdrawBuffer hsource hrecipients hremainder howned hlength =>
    exact .inl (pays_initWithdrawBuffer hsource hrecipients hremainder howned hlength hks hbalance hfresh)

end Builders

end Molecule

end KnishIO
