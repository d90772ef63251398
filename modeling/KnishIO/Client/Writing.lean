import KnishIO.Client.Progress
import KnishIO.Molecule.Signing
import KnishIO.Molecule.SingleRecipient

open ByteString

namespace KnishIO

/-- A `long long` is read as an `int` or is out of range. -/
theorem stoi_of_stoll {s : ByteString} {k : Int} (h : stoll s = .ok k) :
    stoi s = if -2 ^ 31 ≤ k ∧ k < 2 ^ 31 then .ok k else .error (.outOfRange (ascii "stoi")) := by
  have hsigned := conversion_ok.mp h
  rw [CInteger.stoll, CInteger.toSigned] at hsigned
  rw [stoi, CInteger.stoi, CInteger.toSigned]
  cases hscan : CInteger.scan s with
  | none => simp [hscan] at hsigned
  | some r =>
    obtain ⟨i, rest⟩ := r
    simp only [hscan] at hsigned
    split at hsigned
    next hlong =>
      obtain rfl := Except.ok.inj hsigned
      dsimp only
      split <;> rfl
    next => cases hsigned

namespace Molecule

section Writing

variable {H : Shake256} {secret position : ByteString} {anonymous compressed : Bool} {m signed : Molecule}

/-- The source has no balance, or one that is a `long long`. -/
def LongBalance (m : Molecule) : Prop := ∀ w, m.sourceWallet = some w → w.balance = [] ∨ ∃ k, stoll w.balance = .ok k

/-- The source has no balance, or one that is an `int`. -/
def IntBalance (m : Molecule) : Prop :=
  ∀ w, m.sourceWallet = some w → w.balance = [] ∨ ∃ k, stoll w.balance = .ok k ∧ -2 ^ 31 ≤ k ∧ k < 2 ^ 31

theorem readableBalance_iff : m.ReadableBalance ↔ m.IntBalance := by
  refine forall_congr' fun w => imp_congr_right fun _ => or_congr_right ?_
  constructor
  · rintro ⟨k, hk⟩
    obtain ⟨hlong, hrange⟩ := stoll_of_stoi hk
    exact ⟨k, hlong, hrange⟩
  · rintro ⟨k, hlong, hrange⟩
    exact ⟨k, by rw [stoi_of_stoll hlong, if_pos hrange]⟩

/-- Only the balance can keep a molecule of UTF-8 strings from being written. -/
theorem toJson_ok_iff (hutf8 : m.WireUtf8) : (∃ text, m.toJson = .ok text) ↔ m.IntBalance := by
  rw [← readableBalance_iff]
  constructor
  · rintro ⟨text, h⟩ w hw
    obtain ⟨members, hmembers, -⟩ := Throws.bind_ok h
    rw [sourceMember, hw] at hmembers
    obtain ⟨balance, hbalance, -⟩ := Throws.map_ok hmembers
    unfold sourceBalance at hbalance
    split at hbalance
    next hempty => exact .inl hempty
    next => exact .inr ⟨balance, hbalance⟩
  · intro h
    obtain ⟨json, htext, -⟩ := toJson_ok integersOnly h hutf8
    exact ⟨_, htext⟩

/-- A balance that is no `int` is out of range for the writer. -/
theorem toJson_outOfRange (hlong : m.LongBalance) (h : ¬ m.IntBalance) :
    m.toJson = .error (.outOfRange (ascii "stoi")) := by
  obtain ⟨w, hw, hne, hnone⟩ : ∃ w, m.sourceWallet = some w ∧ w.balance ≠ [] ∧
      ¬ ∃ k, stoll w.balance = .ok k ∧ -2 ^ 31 ≤ k ∧ k < 2 ^ 31 := by
    simpa [IntBalance] using h
  obtain ⟨k, hk⟩ := (hlong w hw).resolve_left hne
  have hstoi : stoi w.balance = .error (.outOfRange (ascii "stoi")) := by
    rw [stoi_of_stoll hk, if_neg fun hrange => hnone ⟨k, hk, hrange⟩]
  rw [toJson, sourceMember, hw]
  simp only [sourceBalance, if_neg hne, hstoi]
  rfl

/-- Signing keeps the strings and the source. -/
theorem wireUtf8_of_sign (hutf8 : m.WireUtf8) (hsign : (sign H secret anonymous compressed).exec m = (.ok position, signed)) :
    signed.WireUtf8 ∧ signed.sourceWallet = m.sourceWallet := by
  cases hatoms : m.atoms with
  | nil =>
    rw [sign_exec_empty H secret anonymous compressed hatoms] at hsign
    cases hsign
  | cons front rest =>
    obtain ⟨hash, key, signature, hhash, hkey, hsig, rfl⟩ := sign_ok_inv hatoms hsign
    exact ⟨wireUtf8_signed hutf8 (hashAtomsBase17_signable hhash) (oneTimeSignature_ascii hkey hsig) anonymous, rfl⟩

end Writing

end Molecule

section Submission

variable {E : Type} {S : Setting E} {w : World E} {secret : Secret} {built signed : Molecule} {position : ByteString}

/-- A molecule that is signed and checked is written, and so sent, exactly when the balance of its source is an `int`.
Where it is not, nothing is sent after the key has signed. -/
theorem checked_written_iff (hsecret : w.client.secret = some secret) (hutf8 : built.WireUtf8) (hlong : built.LongBalance)
    (hsign : (Molecule.sign S.hash secret.bytes).exec built = (.ok position, signed))
    (hcheck : Molecule.check S.hash signed = .ok ()) :
    ((∃ text, signed.toJson = .ok text) ↔ built.IntBalance) ∧
      (built.IntBalance → (submitMolecule S built).exec w = (do
        let reply ← mutate S secret signed
        Act.ofExcept (reply.proposal S.floatText "Molecule proposal") : Run E Response).exec w) ∧
      (¬ built.IntBalance → (submitMolecule S built).exec w = (.error (.outOfRange (ascii "stoi")), w)) := by
  obtain ⟨hsigned, hsource⟩ := Molecule.wireUtf8_of_sign hutf8 hsign
  have hint : signed.IntBalance ↔ built.IntBalance := by rw [Molecule.IntBalance, Molecule.IntBalance, hsource]
  have hlongSigned : signed.LongBalance := by rwa [Molecule.LongBalance, hsource]
  have hchecked : (Act.ofExcept ((Molecule.check S.hash signed).mapError recast) : Run E Unit).exec w = (.ok (), w) := by
    rw [hcheck]
    rfl
  have hreaches : (submitMolecule S built).exec w = (do
      let _moleculeJson ← Act.ofExcept signed.toJson
      let reply ← mutate S secret signed
      Act.ofExcept (reply.proposal S.floatText "Molecule proposal") : Run E Response).exec w := by
    rw [submitMolecule, exec_bind_of_ok (Act.exec_get w)]
    simp only [hsecret]
    rw [exec_bind_of_ok (by rw [Act.exec_ofExcept, Act.run_eq_ok.mpr hsign])]
    simp only [↓reduceIte]
    rw [exec_bind_of_ok hchecked]
  refine ⟨(Molecule.toJson_ok_iff hsigned).trans hint, fun h => ?_, fun h => ?_⟩
  · obtain ⟨text, htext⟩ := (Molecule.toJson_ok_iff hsigned).mpr (hint.mpr h)
    rw [hreaches, exec_bind_of_ok (by rw [htext, Act.exec_ofExcept])]
  · rw [hreaches, Molecule.toJson_outOfRange hlongSigned fun h' => h (hint.mp h')]
    rfl

end Submission

section Example

open Molecule

/-- A transfer between the sample wallets, built by one of the builders. -/
def plainTransfer (balance value rest : Int) : Molecule :=
  sampleBuilt (Decimal.ofInt balance) (Decimal.ofInt value) (Decimal.ofInt rest) [] [] [] []

theorem plainTransfer_checked (balance value rest : Int) (hbalance : Utf8.valid (ascii "-" ++ Decimal.ofInt balance) = true)
    (hsums : tokenSums [] (plainTransfer balance value rest).atoms = .ok true) :
    ∃ position signed, (sign scripted.hash sampleSecret.bytes).exec (plainTransfer balance value rest) = (.ok position, signed) ∧
      check scripted.hash signed = .ok () := by
  have haddress : Wallet.addressAt scripted.hash sampleSecret.bytes (ascii "T") (ascii "0a") 1 = .ok (List.replicate 64 48) :=
    addressAt_constant (ascii "T") sampleSecret.nonempty (show ascii "0a" ≠ [] by decide)
  obtain ⟨position, signed, hsign, hcheck, -⟩ := sign_accepted (m := plainTransfer balance value rest) rfl
    (by simp [plainTransfer, sampleBuilt, debitAtom, creditAtom, Atom.new]) haddress
    (verifyContinuId_of_token rfl (show ascii "T" ≠ ascii "USER" by decide)) (fun hash hhash => conserved_sample hsums hhash)
    (wireUtf8_sample hbalance (Atom.utf8_ofInt _) (Atom.utf8_ofInt _) nofun nofun) false true
  exact ⟨position, signed, hsign, hcheck⟩

theorem longBalance_plainTransfer {balance value rest : Int} (hlow : -2 ^ 63 ≤ balance) (hhigh : balance < 2 ^ 63) :
    (plainTransfer balance value rest).LongBalance := by
  intro w hw
  obtain rfl := Option.some.inj hw
  exact .inr ⟨balance, stoll_ofInt hlow hhigh⟩

theorem checked_written_iff_small :
    ∃ position signed, (sign scripted.hash sampleSecret.bytes).exec (plainTransfer 7 5 2) = (.ok position, signed) ∧
      check scripted.hash signed = .ok () ∧ ((∃ text, signed.toJson = .ok text) ↔ (plainTransfer 7 5 2).IntBalance) := by
  obtain ⟨position, signed, hsign, hcheck⟩ := plainTransfer_checked 7 5 2 (by decide)
    (by decide +kernel)
  have hutf8 : (plainTransfer 7 5 2).WireUtf8 :=
    wireUtf8_sample (by decide) (Atom.utf8_ofInt _) (Atom.utf8_ofInt _) nofun nofun
  exact ⟨position, signed, hsign, hcheck, (checked_written_iff (w := sampleWorld ⟨200, []⟩) rfl hutf8
    (longBalance_plainTransfer (by norm_num) (by norm_num)) hsign hcheck).1⟩

theorem initValues_plainTransfer :
    (initValues (fun _ => 0) (sampleSource (Decimal.ofInt 3000000000) []) [sampleRecipient []] [Decimal.ofInt 1]
      (sampleRemainder [])).run
        (Molecule.withWallets [] 0 (sampleSource (Decimal.ofInt 3000000000) []) (sampleRemainder [])) =
      .ok ((plainTransfer 3000000000 1 2999999999).atoms, plainTransfer 3000000000 1 2999999999) := by
  have hheld : stoll (Decimal.ofInt 3000000000) = .ok 3000000000 := stoll_ofInt (by norm_num) (by norm_num)
  have hspent : stoll (Decimal.ofInt 1) = .ok 1 := stoll_ofInt (by norm_num) (by norm_num)
  have hbalance : (sampleSource (Decimal.ofInt 3000000000) []).balance = Decimal.ofInt 3000000000 := rfl
  have hunits : unitsMeta (sampleSource (Decimal.ofInt 3000000000) []).tokenUnits = .ok [] ∧
      unitsMeta (sampleRecipient []).tokenUnits = .ok [] ∧ unitsMeta (sampleRemainder []).tokenUnits = .ok [] :=
    ⟨rfl, rfl, rfl⟩
  rw [run_initValues_single, hbalance, hunits.1, hunits.2.1, hunits.2.2, hheld, hspent]
  rfl

/-- A transfer of one token from a large balance, as the multi-recipient operation builds it, is signed and checked and
cannot be written. -/
theorem checked_unwritten_large :
    (initValues (fun _ => 0) (sampleSource (Decimal.ofInt 3000000000) []) [sampleRecipient []] [Decimal.ofInt 1]
        (sampleRemainder [])).run
          (Molecule.withWallets [] 0 (sampleSource (Decimal.ofInt 3000000000) []) (sampleRemainder [])) =
        .ok ((plainTransfer 3000000000 1 2999999999).atoms, plainTransfer 3000000000 1 2999999999) ∧
      (plainTransfer 3000000000 1 2999999999).LongBalance ∧ (plainTransfer 3000000000 1 2999999999).WireUtf8 ∧
      ∃ position signed,
        (sign scripted.hash sampleSecret.bytes).exec (plainTransfer 3000000000 1 2999999999) = (.ok position, signed) ∧
        check scripted.hash signed = .ok () ∧ signed.toJson = .error (.outOfRange (ascii "stoi")) := by
  obtain ⟨position, signed, hsign, hcheck⟩ := plainTransfer_checked 3000000000 1 2999999999 (by decide) (by decide +kernel)
  have hutf8 : (plainTransfer 3000000000 1 2999999999).WireUtf8 :=
    wireUtf8_sample (by decide) (Atom.utf8_ofInt _) (Atom.utf8_ofInt _) nofun nofun
  have hlong : (plainTransfer 3000000000 1 2999999999).LongBalance :=
    longBalance_plainTransfer (by norm_num) (by norm_num)
  obtain ⟨-, hsource⟩ := wireUtf8_of_sign hutf8 hsign
  refine ⟨initValues_plainTransfer, hlong, hutf8, position, signed, hsign, hcheck, toJson_outOfRange ?_ ?_⟩
  · rwa [LongBalance, hsource]
  · rw [IntBalance, hsource]
    intro h
    have hbalance : (sampleSource (Decimal.ofInt 3000000000) []).balance = Decimal.ofInt 3000000000 := rfl
    have hsmall := h _ rfl
    rw [hbalance] at hsmall
    obtain hnone | ⟨k, hk, -, hhigh⟩ := hsmall
    · exact absurd hnone (Decimal.ofInt_ne_nil _)
    · obtain rfl := stoll_ofInt_ok hk
      exact absurd hhigh (by norm_num)

end Example

end KnishIO
