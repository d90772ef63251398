import KnishIO.Client.Progress
import KnishIO.Client.ValueOperations
import KnishIO.Molecule.Conserving

open ByteString

namespace KnishIO

section Sending

variable {E : Type} {S : Setting E} {w t : World E} {P : World E → Secret → Molecule → Prop} {m : Molecule}

/-- A molecule was sent on the way from one state to another. -/
def Sends (w t : World E) (m : Molecule) : Prop :=
  ∃ secret reply, Event.proposed secret m reply ∈ t.log.drop w.log.length

theorem sends_iff {events : List Event} (hlog : t.log = w.log ++ events) :
    Sends w t m ↔ ∃ secret reply, Event.proposed secret m reply ∈ events := by
  rw [Sends, hlog, List.drop_left]

theorem Quiet.not_sends (h : Quiet S w t) : ¬ Sends w t m := by
  obtain ⟨events, hlog, hasked⟩ := h.log
  rw [sends_iff hlog]
  rintro ⟨secret, reply, hmem⟩
  obtain ⟨_, _, heq⟩ := hasked _ hmem
  cases heq

/-- The one molecule that such a call sends. -/
theorem Outcome.sends (h : Outcome S w P t) (hsends : Sends w t m) :
    ∃ u secret, Quiet S w u ∧ P u secret m ∧ t = u.proposed S secret m := by
  cases h with
  | quiet hquiet => exact absurd hsends hquiet.not_sends
  | @sent u secret sent hquiet hsecret hP =>
    obtain ⟨events, hlog, hasked⟩ := hquiet.log
    have hsent : (u.proposed S secret sent).log =
        w.log ++ (events ++ [.proposed secret sent (S.serve (.proposeMolecule sent) u.env).1]) := by
      rw [← List.append_assoc, ← hlog]
      rfl
    obtain ⟨signer, reply, hmem⟩ := (sends_iff hsent).mp hsends
    obtain hmem | hmem := List.mem_append.mp hmem
    · obtain ⟨_, _, heq⟩ := hasked _ hmem
      cases heq
    · obtain ⟨rfl, rfl, -⟩ := Event.proposed.inj (List.mem_singleton.mp hmem)
      exact ⟨u, _, hquiet, hP, rfl⟩

theorem Quiet.sends_proposed (h : Quiet S w t) (secret : Secret) (m : Molecule) : Sends w (t.proposed S secret m) m := by
  obtain ⟨events, hlog, -⟩ := h.log
  have hsent : (t.proposed S secret m).log =
      w.log ++ (events ++ [.proposed secret m (S.serve (.proposeMolecule m) t.env).1]) := by
    rw [← List.append_assoc, ← hlog]
    rfl
  exact (sends_iff hsent).mpr ⟨secret, _, List.mem_append_right _ (List.mem_singleton_self _)⟩

/-- Signing keeps what a builder writes. -/
theorem SignedBy.unsigned {H : Shake256} {cellSlug : ByteString} {source remainder : Wallet} {b : Molecule.Builder}
    {secret : Secret} (h : SignedBy H cellSlug source remainder b secret m) :
    ∃ clock atoms built, (b.run clock).run (Molecule.withWallets cellSlug (clock 0) source remainder) = .ok (atoms, built) ∧
      m.atoms.map Atom.unsigned = built.atoms.map Atom.unsigned := by
  obtain ⟨clock, atoms, built, position, hrun, hsign⟩ := h
  refine ⟨clock, atoms, built, Act.run_eq_ok.mpr hrun, ?_⟩
  cases hatoms : built.atoms with
  | nil =>
    simp [Molecule.sign, hatoms] at hsign
  | cons front rest =>
    obtain ⟨hash, key, signature, -, -, -, rfl⟩ := Molecule.sign_ok_inv hatoms hsign
    rw [← hatoms]
    exact Molecule.assignFragments_unsigned _ _

end Sending

namespace Molecule

/-- Only the values count. -/
theorem Drains.congr {balance : ByteString} {amounts : List Int} {xs ys : List Atom}
    (h : Drains balance amounts xs) (hsame : ys.map (·.value) = xs.map (·.value)) : Drains balance amounts ys := by
  obtain ⟨debit, credited, remainder, k, rfl, hbalance, hdebit, hcredited, hremainder⟩ := h
  rw [List.map_append, List.map_cons, List.map_singleton] at hsame
  obtain ⟨front, back, rfl, hfront, hback⟩ := List.map_eq_append_iff.mp hsame
  obtain ⟨first, rest, rfl, hfirst, hrest⟩ := List.map_eq_cons_iff.mp hfront
  obtain ⟨last, hlast, hvalue⟩ := List.map_eq_singleton_iff.mp hback
  subst hlast
  exact ⟨first, rest, last, k, rfl, hbalance, hfirst.trans hdebit, hrest.trans hcredited, hvalue.trans hremainder⟩

end Molecule

namespace ValueOperation

open Molecule CFloat

variable {E : Type} {S : Setting E} {w : World E} {op : ValueOperation} {ks : List Int} {m : Molecule}

theorem Builds.drains {info : TokenWalletInfo} {b : Builder} {clock : Nat → Int64} {start built : Molecule}
    {atoms : List Atom} (h : op.Builds info ks b) (hfresh : start.atoms = [])
    (hrun : (b.run clock).run start = .ok (atoms, built)) : Drains b.source.balance ks built.atoms := by
  cases h with
  | transferToken => exact drains_initValue hfresh hrun
  | transferTokens ledger shadows fresh hks hhigh hlength =>
    refine drains_initValues hfresh ?_ hrun
    rw [length_splitUnitsMulti, hlength, (Throws.mapM_ok_iff.mp hks).length_eq]
  | burnToken => exact drains_initValue hfresh hrun
  | depositBufferToken => exact drains_initDepositBuffer hfresh hrun
  | withdrawRow | withdrawGiven => exact drains_initWithdrawBuffer hfresh rfl hrun

/-- The molecule of an operation moves the amounts out of the reported balance, which covers them. -/
theorem Proposes.drains {secret : Secret} (h : op.Proposes S w ks secret m) :
    Drains (op.balance S w) ks m.atoms ∧ ks.sum ≤ spendable (op.balance S w) := by
  obtain ⟨b, cellSlug, source, remainder, hbuilds, hguard, hsigned⟩ := h
  obtain ⟨clock, atoms, built, hrun, hsame⟩ := hsigned.unsigned
  have hvalues := congrArg (List.map (·.value)) hsame
  rw [List.map_map, List.map_map] at hvalues
  rw [← hbuilds.source_balance]
  exact ⟨(hbuilds.drains rfl hrun).congr hvalues, hguard⟩

/-- Every molecule that an operation sends is one of its own. -/
theorem proposes_of_sends (hsends : Sends w ((op.run S).exec w).2 m) :
    ∃ ks secret, op.Proposes S w ks secret m ∧ op.amounts = .ok ks := by
  obtain ⟨u, secret, -, ⟨ks, hproposes⟩, -⟩ := (settles S w op).outcome.sends hsends
  have hbuilds := hproposes
  obtain ⟨b, cellSlug, source, remainder, hbuilds, -⟩ := hbuilds
  exact ⟨ks, secret, hproposes, hbuilds.amounts_eq⟩

/-- Only the source is debited: no credited atom has a negative value, and the remainder is what is left of the
balance. -/
def OnlyDebits (balance : Int) (ks : List Int) (m : Molecule) : Prop :=
  ∃ debit credited remainder r, m.atoms = debit :: credited ++ [remainder] ∧
    (∀ a ∈ credited, ∃ v, decimalInt? a.value = some v ∧ 0 ≤ v) ∧
    decimalInt? remainder.value = some r ∧ 0 ≤ r ∧ r ≤ balance ∧ r = balance - ks.sum

theorem Proposes.debits_iff {secret : Secret} (h : op.Proposes S w ks secret m) :
    OnlyDebits (spendable (op.balance S w)) ks m ↔ Fits ks := by
  obtain ⟨⟨debit, credited, remainder, k, hatoms, hbalance, -, hcredited, hremainder⟩, hguard⟩ := h.drains
  rw [spendable_of_stoll hbalance] at hguard ⊢
  have hcarry := carry_of_values hcredited
  constructor
  · rintro ⟨debit', credited', remainder', r, hatoms', hnonneg, -, hr, -, hrest⟩
    rw [hatoms] at hatoms'
    obtain ⟨rfl, hlist⟩ := List.cons.inj hatoms'
    obtain ⟨rfl, -⟩ := List.append_inj' hlist rfl
    refine ⟨fun k hk => ?_, ?_⟩
    · obtain ⟨a, ha, hvalue⟩ := hcarry.atom hk
      obtain ⟨v, hv, hpos⟩ := hnonneg a ha
      rw [hvalue] at hv
      exact Option.some.inj hv ▸ hpos
    · have hrange := stoll_range hbalance
      omega
  · rintro ⟨hnonneg, hsum⟩
    have hpos := List.sum_nonneg hnonneg
    refine ⟨debit, credited, remainder, k - ks.sum, hatoms, fun a ha => ?_, hremainder ▸ decimalInt?_ofInt _, by omega,
      by omega, rfl⟩
    obtain ⟨v, hv, hvalue⟩ := hcarry.value ha
    exact ⟨v, hvalue, hnonneg v hv⟩

/-- An operation that sends a molecule, or runs into an overflow on the way to it, only debits its source if and
only if no amount is negative and their sum is a `long long`. -/
theorem onlyDebits_iff (hks : op.amounts = .ok ks)
    (hacts : ((op.run S).exec w).1 = .error .undefinedBehavior ∨ ∃ m, Sends w ((op.run S).exec w).2 m) :
    (((op.run S).exec w).1 ≠ .error .undefinedBehavior ∧
      ∀ m, Sends w ((op.run S).exec w).2 m → OnlyDebits (spendable (op.balance S w)) ks m) ↔ Fits ks := by
  have hsent {m : Molecule} (hsends : Sends w ((op.run S).exec w).2 m) : ∃ secret, op.Proposes S w ks secret m := by
    obtain ⟨ks', secret, hproposes, hks'⟩ := proposes_of_sends hsends
    obtain rfl : ks = ks' := Except.ok.inj (hks.symm.trans hks')
    exact ⟨secret, hproposes⟩
  constructor
  · rintro ⟨hdefined, hdebits⟩
    obtain hundefined | ⟨m, hsends⟩ := hacts
    · exact absurd hundefined hdefined
    · obtain ⟨secret, hproposes⟩ := hsent hsends
      exact hproposes.debits_iff.mp (hdebits m hsends)
  · intro hfits
    refine ⟨fun hundefined => (settles S w op).undefined hundefined ks hks hfits, fun m hsends => ?_⟩
    obtain ⟨secret, hproposes⟩ := hsent hsends
    exact hproposes.debits_iff.mpr hfits

section Example

/-- A transfer from a wallet of seven tokens. -/
def sampleTransfer (k : Int) : ValueOperation := .transferToken (ascii "0d") (ascii "T") (.finite k) [] []

def sevenTokens : World (List Reply) := sampleWorld (balanceReply "7" "[]")

theorem sampleTransfer_sends {k : Int} (h : k = 5 ∨ k = -5) :
    (sampleTransfer k).amounts = .ok [k] ∧
      ∃ m, Sends sevenTokens (((sampleTransfer k).run scripted).exec sevenTokens).2 m ∧
        m.atoms.map (·.value) = [ascii "-7", Decimal.ofInt k, Decimal.ofInt (7 - k)] := by
  have hk : toLongLong (.finite k) = .ok k := by
    obtain rfl | rfl := h <;> decide
  have hguard : k ≤ spendable (ascii "7") := by
    obtain rfl | rfl := h <;> decide
  have hspent : stoi (Decimal.ofInt k) = .ok k := by
    obtain rfl | rfl := h <;> decide
  have hrest : signed 32 (7 - k) = .ok (7 - k) := by
    obtain rfl | rfl := h <;> decide
  have hsums : tokenSums [] (sampleBuilt (ascii "7") (Decimal.ofInt k) (Decimal.ofInt (7 - k)) [] [] [] []).atoms =
      .ok true := by
    obtain rfl | rfl := h <;> decide +kernel
  have hreply : (balanceReply "7" "[]").tokenWallet integersOnly = sampleRow (ascii "7") [] := by decide +kernel
  have hsplit : Wallet.splitUnits (sampleSource (ascii "7") []) [] (sampleRemainder []) (some (sampleRecipient [])) =
      (sampleSource (ascii "7") [], sampleRemainder [], some (sampleRecipient [])) := rfl
  obtain ⟨u, m, hquiet, hrun, hcompletes⟩ := transferToken_sample hreply hk hguard hsplit (by decide) hspent hrest rfl
    rfl hsums rfl nofun nofun
  refine ⟨by rw [sampleTransfer, amounts, hk]; rfl, m, ?_, ?_⟩
  · have hop : (sampleTransfer k).run scripted =
        KnishIO.transferToken scripted (ascii "0d") (ascii "T") (.finite k) [] [] := rfl
    rw [hop, sevenTokens, hrun]
    exact hquiet.sends_proposed sampleSecret m
  · have hvalues := congrArg (List.map (·.value)) hcompletes.atoms
    rwa [List.map_map, List.map_map] at hvalues

theorem onlyDebits_iff_sample :
    (((sampleTransfer 5).run scripted).exec sevenTokens).1 ≠ .error .undefinedBehavior ∧
        (∀ m, Sends sevenTokens (((sampleTransfer 5).run scripted).exec sevenTokens).2 m →
          OnlyDebits (spendable ((sampleTransfer 5).balance scripted sevenTokens)) [5] m) ↔ Fits [5] := by
  obtain ⟨hamounts, m, hsends, -⟩ := sampleTransfer_sends (.inl rfl)
  exact onlyDebits_iff hamounts (.inr ⟨m, hsends⟩)

/-- A transfer of a negative amount is sent, debits the recipient, and leaves a remainder above the balance. -/
theorem transferToken_debits_recipient :
    (sampleTransfer (-5)).amounts = .ok [-5] ∧
      ∃ m, Sends sevenTokens (((sampleTransfer (-5)).run scripted).exec sevenTokens).2 m ∧
        m.atoms.map (·.value) = [ascii "-7", ascii "-5", ascii "12"] ∧
        ¬ OnlyDebits (spendable ((sampleTransfer (-5)).balance scripted sevenTokens)) [-5] m := by
  obtain ⟨hamounts, m, hsends, hvalues⟩ := sampleTransfer_sends (.inr rfl)
  refine ⟨hamounts, m, hsends, hvalues, fun hdebits => ?_⟩
  obtain ⟨ks, secret, hproposes, hks⟩ := proposes_of_sends hsends
  obtain rfl : [-5] = ks := Except.ok.inj (hamounts.symm.trans hks)
  have hfits := hproposes.debits_iff.mp hdebits
  exact absurd (fits_singleton hfits) (by norm_num)

end Example

end ValueOperation

end KnishIO
