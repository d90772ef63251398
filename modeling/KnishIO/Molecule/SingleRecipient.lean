import KnishIO.Molecule.ValueBuilders

open ByteString

namespace KnishIO

/-- The atom without its time. -/
def Atom.undated (a : Atom) : Atom := { a with createdAt := 0 }

namespace Molecule

section Agreement

variable {clock₁ clock₂ : Nat → Int64} {source recipient remainder : Wallet} {value : ByteString} {m m₁ m₂ : Molecule}

/-- The three atoms of a transfer to one recipient. -/
def transferAtoms (clock : Nat → Int64) (source recipient remainder : Wallet) (value rest : ByteString)
    (sourceMeta recipientMeta remainderMeta : Metas) : List Atom :=
  [debitAtom (clock 0) "V" source [] [] sourceMeta,
    creditAtom (clock 1) "V" recipient recipient.token value recipient.bundle recipientMeta 1,
    creditAtom (clock 2) "V" remainder remainder.token rest remainder.bundle remainderMeta 2]

theorem undated_transferAtoms (clock : Nat → Int64) (source recipient remainder : Wallet) (value rest : ByteString)
    (sourceMeta recipientMeta remainderMeta : Metas) :
    (transferAtoms clock source recipient remainder value rest sourceMeta recipientMeta remainderMeta).map
        Atom.undated =
      transferAtoms (fun _ => 0) source recipient remainder value rest sourceMeta recipientMeta remainderMeta := rfl

/-- The multi-recipient builder with one recipient; the total it keeps is the value. -/
theorem run_initValues_single (clock : Nat → Int64) (source recipient remainder : Wallet) (value : ByteString)
    (m : Molecule) :
    (initValues clock source [recipient] [value] remainder).run m = do
      let sourceMeta ← unitsMeta source.tokenUnits
      let spent ← stoll value
      let total ← KnishIO.signed 64 (0 + spent)
      let recipientMeta ← unitsMeta recipient.tokenUnits
      let remainderMeta ← unitsMeta remainder.tokenUnits
      let balance ← stoll source.balance
      let remainderAmount ← KnishIO.signed 64 (balance - total)
      let built := m.appended (transferAtoms clock source recipient remainder value (Decimal.ofInt remainderAmount)
        sourceMeta recipientMeta remainderMeta)
      return (built.atoms, built) := by
  rw [run_initValues]
  simp only [credits, bind_assoc, pure_bind]
  rfl

/-- Both builders return, and build the same atoms but for their times. -/
def BuildersAgree (clock₁ clock₂ : Nat → Int64) (source recipient remainder : Wallet) (value : ByteString)
    (m₁ m₂ : Molecule) : Prop :=
  ∃ atoms₁ built₁ atoms₂ built₂, (initValue clock₁ source recipient remainder value).run m₁ = .ok (atoms₁, built₁) ∧
    (initValues clock₂ source [recipient] [value] remainder).run m₂ = .ok (atoms₂, built₂) ∧
    built₁.atoms.map Atom.undated = built₂.atoms.map Atom.undated

variable {balance spent : Int}

/-- The single-recipient builder converts to `int`. -/
theorem initValue_returns_iff (hbalance : source.balance = Decimal.ofInt balance) :
    (∃ atoms built, (initValue clock₁ source recipient remainder (Decimal.ofInt spent)).run m = .ok (atoms, built)) ↔
      Writable source.tokenUnits ∧ Writable recipient.tokenUnits ∧ Writable remainder.tokenUnits ∧
        (-2 ^ 31 ≤ balance ∧ balance < 2 ^ 31) ∧ (-2 ^ 31 ≤ spent ∧ spent < 2 ^ 31) ∧
        -2 ^ 31 ≤ balance - spent ∧ balance - spent < 2 ^ 31 := by
  constructor
  · rintro ⟨atoms, built, h⟩
    rw [run_initValue, hbalance] at h
    obtain ⟨sourceMeta, hsource, h⟩ := Throws.bind_ok h
    obtain ⟨recipientMeta, hrecipient, h⟩ := Throws.bind_ok h
    obtain ⟨remainderMeta, hremainder, h⟩ := Throws.bind_ok h
    obtain ⟨held, hheld, h⟩ := Throws.bind_ok h
    obtain ⟨k, hk, h⟩ := Throws.bind_ok h
    obtain ⟨rest, hrest, -⟩ := Throws.bind_ok h
    obtain rfl := stoi_ofInt_ok hheld
    obtain rfl := stoi_ofInt_ok hk
    exact ⟨writable_of_unitsMeta hsource, writable_of_unitsMeta hrecipient, writable_of_unitsMeta hremainder,
      (stoll_of_stoi hheld).2, (stoll_of_stoi hk).2, (signed_ok.mp hrest).2⟩
  · rintro ⟨hsource, hrecipient, hremainder, hheld, hk, hrest⟩
    obtain ⟨sourceMeta, hsource⟩ := unitsMeta_of_writable hsource
    obtain ⟨recipientMeta, hrecipient⟩ := unitsMeta_of_writable hrecipient
    obtain ⟨remainderMeta, hremainder⟩ := unitsMeta_of_writable hremainder
    have hrest : KnishIO.signed 32 (balance - spent) = .ok (balance - spent) := signed_ok.mpr ⟨rfl, hrest⟩
    rw [run_initValue, hbalance, hsource, hrecipient, hremainder, stoi_ofInt hheld.1 hheld.2, stoi_ofInt hk.1 hk.2]
    simp only [bind, Except.bind, hrest]
    exact ⟨_, _, rfl⟩

/-- Where it returns, the other one does: what is an `int` is a `long long`. -/
theorem agree_of_returns (hfresh₁ : m₁.atoms = []) (hfresh₂ : m₂.atoms = [])
    (h : ∃ atoms built, (initValue clock₁ source recipient remainder value).run m₁ = .ok (atoms, built)) :
    BuildersAgree clock₁ clock₂ source recipient remainder value m₁ m₂ := by
  obtain ⟨atoms, built, h⟩ := h
  obtain ⟨sourceMeta, recipientMeta, remainderMeta, held, k, hsource, hrecipient, hremainder, hheld, hk, rfl⟩ :=
    initValue_ok h
  obtain ⟨hheldLong, hheldRange⟩ := stoll_of_stoi hheld
  obtain ⟨hkLong, hkRange⟩ := stoll_of_stoi hk
  have htotal : KnishIO.signed 64 (0 + k) = .ok k := signed_ok.mpr ⟨by omega, by omega, by omega⟩
  have hrest : KnishIO.signed 64 (held - k) = .ok (held - k) := signed_ok.mpr ⟨rfl, by omega, by omega⟩
  let written (clock : Nat → Int64) : List Atom :=
    transferAtoms clock source recipient remainder value (Decimal.ofInt (held - k)) sourceMeta recipientMeta remainderMeta
  have hmulti : (initValues clock₂ source [recipient] [value] remainder).run m₂ =
      .ok ((m₂.appended (written clock₂)).atoms, m₂.appended (written clock₂)) := by
    rw [run_initValues_single, hsource, hrecipient, hremainder, hheldLong, hkLong]
    simp only [bind, Except.bind, htotal, hrest]
    rfl
  refine ⟨_, _, _, _, h, hmulti, ?_⟩
  rw [appended, appended, hfresh₁, hfresh₂]
  exact (undated_transferAtoms clock₁ _ _ _ _ _ _ _ _).trans (undated_transferAtoms clock₂ _ _ _ _ _ _ _ _).symm

/-- The two builders agree on a transfer exactly when every number of it is an `int` and the units of the three
wallets can be written. -/
theorem initValue_agrees_iff (hbalance : source.balance = Decimal.ofInt balance) (hle : spent ≤ balance)
    (hfresh₁ : m₁.atoms = []) (hfresh₂ : m₂.atoms = []) :
    BuildersAgree clock₁ clock₂ source recipient remainder (Decimal.ofInt spent) m₁ m₂ ↔
      (-2 ^ 31 ≤ spent ∧ balance < 2 ^ 31 ∧ balance - spent < 2 ^ 31) ∧
        Writable source.tokenUnits ∧ Writable recipient.tokenUnits ∧ Writable remainder.tokenUnits := by
  constructor
  · rintro ⟨atoms, built, -, -, h, -⟩
    obtain ⟨hsource, hrecipient, hremainder, hheld, hk, hrest⟩ := (initValue_returns_iff hbalance).mp ⟨atoms, built, h⟩
    exact ⟨⟨hk.1, hheld.2, hrest.2⟩, hsource, hrecipient, hremainder⟩
  · rintro ⟨⟨hlow, hhigh, hrest⟩, hsource, hrecipient, hremainder⟩
    exact agree_of_returns hfresh₁ hfresh₂ ((initValue_returns_iff hbalance).mpr
      ⟨hsource, hrecipient, hremainder, ⟨by omega, hhigh⟩, ⟨hlow, by omega⟩, by omega, hrest⟩)

end Agreement

section Example

/-- A wallet of the token TOK with a balance. -/
def funded (balance : Int) : Wallet where
  position := ascii "0a"
  token := ascii "TOK"
  key := []
  address := ascii "ad"
  bundle := ascii "0b"
  mlkemPublicKey := []
  mlkemParameterSet := 1024
  otsVersion := 1
  balance := Decimal.ofInt balance

theorem initValue_agrees_iff_small :
    BuildersAgree (fun _ => 1) (fun _ => 2) (funded 10) (funded 0) (funded 0) (Decimal.ofInt 4) { createdAt := 0 }
      { createdAt := 0 } :=
  (initValue_agrees_iff (show (funded 10).balance = Decimal.ofInt 10 from rfl) (by norm_num) rfl rfl).mpr
    ⟨by norm_num, List.forall_mem_nil _, List.forall_mem_nil _, List.forall_mem_nil _⟩

/-- Past 2^31 the client's check admits a transfer that only the multi-recipient builder can build. -/
theorem initValue_disagrees_large :
    stoll (funded 3000000000).balance = .ok 3000000000 ∧ stoll (Decimal.ofInt 1) = .ok 1 ∧
      (∃ r, (initValues (fun _ => 2) (funded 3000000000) [funded 0] [Decimal.ofInt 1] (funded 0)).run
        { createdAt := 0 } = .ok r) ∧
      ¬ BuildersAgree (fun _ => 1) (fun _ => 2) (funded 3000000000) (funded 0) (funded 0) (Decimal.ofInt 1)
        { createdAt := 0 } { createdAt := 0 } := by
  have hbalance : (funded 3000000000).balance = Decimal.ofInt 3000000000 := rfl
  have hheld : stoll (Decimal.ofInt 3000000000) = .ok 3000000000 := stoll_ofInt (by norm_num) (by norm_num)
  have hspent : stoll (Decimal.ofInt 1) = .ok 1 := stoll_ofInt (by norm_num) (by norm_num)
  have hnone (balance : Int) : unitsMeta (funded balance).tokenUnits = .ok [] := rfl
  refine ⟨hheld, hspent, ?_, ?_⟩
  · rw [run_initValues_single, hbalance, hnone, hnone, hheld, hspent]
    exact ⟨_, rfl⟩
  · rintro ⟨atoms, built, -, -, h, -⟩
    obtain ⟨-, -, -, hrange, -⟩ := (initValue_returns_iff hbalance).mp ⟨atoms, built, h⟩
    exact absurd hrange.2 (by norm_num)

end Example

end Molecule

end KnishIO
