import KnishIO.Library.Rollback
import KnishIO.Molecule.ValueBuilders

open ByteString

namespace KnishIO

/-- The exception is one of C++, not an operation without meaning. -/
def Thrown (e : Exception) : Prop := e ≠ .undefinedBehavior

theorem thrown_of_stoi {s : ByteString} {e : Exception} (h : stoi s = .error e) : Thrown e := conversion_error h

theorem thrown_of_stoll {s : ByteString} {e : Exception} (h : stoll s = .error e) : Thrown e := conversion_error h

theorem thrown_of_dumpJson {j : Json} {e : Exception} (h : dumpJson j = .error e) : Thrown e := by
  unfold dumpJson at h
  split at h <;> cases h
  exact nofun

theorem signed_undefined {width : Nat} {i : Int} {e : Exception} (h : signed width i = .error e) : e = .undefinedBehavior := by
  unfold signed at h
  split at h
  · cases h
  · exact (Except.error.inj h).symm

namespace Molecule

theorem thrown_of_unitsMeta {units : List TokenUnit} {e : Exception} (h : unitsMeta units = .error e) : Thrown e := by
  obtain ⟨-, rfl⟩ := unitsMeta_error h
  exact nofun

theorem unitsMeta_ok_iff {units : List TokenUnit} : (∃ metas, unitsMeta units = .ok metas) ↔ Writable units :=
  ⟨fun ⟨_, h⟩ => writable_of_unitsMeta h, unitsMeta_of_writable⟩

/-- The trade rates can be written. -/
def WritableRates (tradeRates : Metas) : Prop := (Json.object (tradeRates.map fun kv => (kv.1, Json.str kv.2))).utf8 = true

theorem tradeRatesMeta_ok_iff {tradeRates : Metas} :
    (∃ metas, tradeRatesMeta tradeRates = .ok metas) ↔ WritableRates tradeRates := by
  unfold tradeRatesMeta
  split
  next hnone => simp [WritableRates, hnone, Json.object, Json.utf8, Json.utf8Members]
  next =>
    constructor
    · rintro ⟨metas, h⟩
      obtain ⟨text, htext, -⟩ := Throws.map_ok h
      exact (dumpJson_ok htext).1
    · intro h
      rw [dumpJson, Json.dump_of_utf8 h]
      exact ⟨_, rfl⟩

theorem thrown_of_tradeRatesMeta {tradeRates : Metas} {e : Exception} (h : tradeRatesMeta tradeRates = .error e) :
    Thrown e := by
  unfold tradeRatesMeta at h
  split at h
  · cases h
  cases hjson : dumpJson (Json.object (tradeRates.map fun kv => (kv.1, Json.str kv.2))) with
  | ok text =>
    rw [hjson] at h
    cases h
  | error e' =>
    rw [hjson] at h
    obtain rfl := Except.error.inj h
    exact thrown_of_dumpJson hjson

section Steps

/-- A property of states that holds before a builder starts and sees its atoms and the hash it clears. -/
structure Observes (R : Molecule → Prop) (m : Molecule) : Prop where
  start : R m
  appended : ∀ atoms, R (m.appended atoms) ↔ m.molecularHash = [] ∧ atoms = []

theorem observes_self (m : Molecule) : Observes (· = m) m where
  start := rfl
  appended := by
    intro atoms
    constructor
    · intro h
      exact ⟨(congrArg molecularHash h).symm, List.append_right_eq_self.mp (congrArg Molecule.atoms h)⟩
    · rintro ⟨hhash, rfl⟩
      rw [appended, List.append_nil, ← hhash]

variable {α : Type} {R : Molecule → Prop} {m s : Molecule} {P : Prop} {as : List Atom}

theorem restores_clearHash {f : PUnit → Act Exception Molecule α} :
    Act.Restores Thrown R (clearHash >>= f) m ↔ Act.Restores Thrown R (f ⟨⟩) (m.appended []) := by
  rw [clearHash, Act.restores_modify_bind, appended, List.append_nil]

theorem restores_pushAtom {atom : Atom} {f : PUnit → Act Exception Molecule α} :
    Act.Restores Thrown R (pushAtom atom >>= f) (m.appended as) ↔
      Act.Restores Thrown R (f ⟨⟩) (m.appended (as ++ [atom])) := by
  rw [pushAtom, Act.restores_modify_bind, appended, appended, List.append_assoc]

theorem restores_builtAtoms : Act.Restores Thrown R builtAtoms s := by
  rintro e t h
  cases h

/-- An overflow has no meaning, so it is no throw. -/
theorem restores_signed {width : Nat} {i : Int} {f : Int → Act Exception Molecule α} :
    Act.Restores Thrown R (Act.ofExcept (signed width i) >>= f) s ↔
      (-2 ^ (width - 1) ≤ i ∧ i < 2 ^ (width - 1) → Act.Restores Thrown R (f i) s) := by
  rw [Act.restores_ofExcept_bind]
  unfold KnishIO.signed
  split
  next hrange => simp [hrange]
  next hrange => simp [hrange, Thrown]

variable (hR : Observes R m)

include hR

theorem Observes.pushed {atom : Atom} : ¬ R (m.appended (as ++ [atom])) := by
  rw [hR.appended]
  simp

/-- The units of the first atom are written after the hash has been cleared. -/
theorem restores_firstUnits {units : List TokenUnit} {f : Metas → Act Exception Molecule α}
    (hrest : ∀ metas, Act.Restores Thrown R (f metas) (m.appended []) ↔ P) :
    Act.Restores Thrown R (Act.ofExcept (unitsMeta units) >>= f) (m.appended []) ↔
      (Writable units ∨ m.molecularHash = []) ∧ (Writable units → P) := by
  rw [Act.restores_step (fun _ => thrown_of_unitsMeta) fun metas _ => hrest metas, unitsMeta_ok_iff, hR.appended,
    and_iff_left rfl]

/-- After an atom has been pushed a step must succeed. -/
theorem restores_read {β : Type} {r : Throws β} (hthrown : ∀ e, r = .error e → Thrown e) {atom : Atom}
    {f : β → Act Exception Molecule α} (hrest : ∀ b, Act.Restores Thrown R (f b) (m.appended (as ++ [atom])) ↔ P) :
    Act.Restores Thrown R (Act.ofExcept r >>= f) (m.appended (as ++ [atom])) ↔ (∃ b, r = .ok b) ∧ P := by
  rw [Act.restores_step_of_not hR.pushed hthrown]
  simp only [hrest, exists_and_right]

theorem restores_units {units : List TokenUnit} {atom : Atom} {f : Metas → Act Exception Molecule α}
    (hrest : ∀ metas, Act.Restores Thrown R (f metas) (m.appended (as ++ [atom])) ↔ P) :
    Act.Restores Thrown R (Act.ofExcept (unitsMeta units) >>= f) (m.appended (as ++ [atom])) ↔ Writable units ∧ P :=
  (restores_read hR (fun _ => thrown_of_unitsMeta) hrest).trans (and_congr_left' unitsMeta_ok_iff)

end Steps

section Builders

variable {R : Molecule → Prop} {m : Molecule}

/-- The last atom of a builder, whose value is a difference. -/
theorem restores_remainder {width : Nat} {i : Int} {atom : Int → Atom} {as : List Atom} :
    Act.Restores Thrown R (do
      let remainderAmount ← Act.ofExcept (signed width i)
      pushAtom (atom remainderAmount)
      builtAtoms) (m.appended as) ↔ True := by
  rw [restores_signed, restores_pushAtom]
  exact iff_true_intro fun _ => restores_builtAtoms

variable (clock : Nat → Int64) (source recipient buffer remainder : Wallet) (hR : Observes R m)

include hR

theorem restores_initValue (value : ByteString) :
    Act.Restores Thrown R (initValue clock source recipient remainder value) m ↔
      (Writable source.tokenUnits ∨ m.molecularHash = []) ∧ (Writable source.tokenUnits →
        Writable recipient.tokenUnits ∧ Writable remainder.tokenUnits ∧ (∃ k, stoi source.balance = .ok k) ∧
          ∃ k, stoi value = .ok k) := by
  rw [initValue, restores_clearHash]
  refine restores_firstUnits hR fun sourceMeta => ?_
  rw [restores_pushAtom]
  refine restores_units hR fun recipientMeta => ?_
  rw [restores_pushAtom]
  refine restores_units hR fun remainderMeta => ?_
  refine restores_read hR (fun _ => thrown_of_stoi) fun balance => ?_
  refine (restores_read hR (fun _ => thrown_of_stoi) fun spent => restores_remainder).trans ?_
  exact and_iff_left trivial

theorem restores_initDepositBuffer (amount : ByteString) (tradeRates : Metas) :
    Act.Restores Thrown R (initDepositBuffer clock source buffer remainder amount tradeRates) m ↔
      WritableRates tradeRates ∧ (∃ k, stoll source.balance = .ok k) ∧ ∃ k, stoll amount = .ok k := by
  rw [initDepositBuffer, restores_clearHash, restores_pushAtom]
  refine (restores_read hR (fun _ => thrown_of_tradeRatesMeta) fun bufferMeta => ?_).trans
    (and_congr_left' tradeRatesMeta_ok_iff)
  rw [restores_pushAtom]
  refine restores_read hR (fun _ => thrown_of_stoll) fun balance => ?_
  refine (restores_read hR (fun _ => thrown_of_stoll) fun deposited => restores_remainder).trans ?_
  exact and_iff_left trivial

/-- The loop over the recipients does not throw: every amount is read and, unless the total leaves the range of
`long long`, the metas are written and what comes after the loop holds. -/
def Credited (writable : Wallet → Prop) (after : Prop) : Int → List Wallet → List ByteString → Prop
  | _, [], _ => after
  | _, _ :: _, [] => True
  | total, recipientWallet :: recipientWallets, amount :: amounts =>
    ∃ k, stoll amount = .ok k ∧ (-2 ^ 63 ≤ total + k ∧ total + k < 2 ^ 63 →
      writable recipientWallet ∧ Credited writable after (total + k) recipientWallets amounts)

theorem restores_creditRecipients {token : Wallet → ByteString}
    {recipientMeta : Wallet → Throws Metas} {writable : Wallet → Prop} {after : Prop}
    (hthrown : ∀ w e, recipientMeta w = .error e → Thrown e)
    (hwritable : ∀ w, (∃ metas, recipientMeta w = .ok metas) ↔ writable w) {f : Nat × Int → Act Exception Molecule (List Atom)}
    (hafter : ∀ r as atom, Act.Restores Thrown R (f r) (m.appended (as ++ [atom])) ↔ after) (index : Nat) (total : Int)
    (recipients : List Wallet) (amounts : List ByteString) (as : List Atom) (atom : Atom) :
    Act.Restores Thrown R (creditRecipients clock token recipientMeta index total recipients amounts >>= f)
      (m.appended (as ++ [atom])) ↔ Credited writable after total recipients amounts := by
  induction recipients generalizing index total amounts as atom with
  | nil => exact hafter _ _ _
  | cons w ws ih =>
    cases amounts with
    | nil => exact iff_true_intro fun e t h he => absurd (Except.error.inj (Prod.mk.inj h).1).symm he
    | cons amount amounts =>
      rw [creditRecipients, Act.bind_assoc, Act.restores_step_of_not hR.pushed fun _ => thrown_of_stoll]
      refine exists_congr fun k => and_congr_right fun _ => ?_
      rw [Act.bind_assoc, restores_signed]
      refine imp_congr_right fun _ => ?_
      rw [Act.bind_assoc]
      refine (restores_read hR (hthrown w) fun metas => ?_).trans (and_congr_left' (hwritable w))
      rw [Act.bind_assoc, restores_pushAtom]
      exact ih _ _ _ _ _

theorem restores_initValues (recipients : List Wallet) (amounts : List ByteString) :
    Act.Restores Thrown R (initValues clock source recipients amounts remainder) m ↔
      (Writable source.tokenUnits ∨ m.molecularHash = []) ∧ (Writable source.tokenUnits →
        Credited (fun w => Writable w.tokenUnits) (Writable remainder.tokenUnits ∧ ∃ k, stoll source.balance = .ok k)
          0 recipients amounts) := by
  rw [initValues, restores_clearHash]
  refine restores_firstUnits hR fun sourceMeta => ?_
  rw [restores_pushAtom]
  refine restores_creditRecipients clock hR (fun _ _ => thrown_of_unitsMeta) (fun _ => unitsMeta_ok_iff)
    (fun r as atom => ?_) _ _ _ _ [] _
  refine restores_units hR fun remainderMeta => ?_
  refine (restores_read hR (fun _ => thrown_of_stoll) fun balance => restores_remainder).trans ?_
  exact and_iff_left trivial

theorem restores_initWithdrawBuffer (recipients : List Wallet) (amounts : List ByteString) :
    Act.Restores Thrown R (initWithdrawBuffer clock source recipients amounts remainder) m ↔
      (Writable source.tokenUnits ∨ m.molecularHash = []) ∧ (Writable source.tokenUnits →
        Credited (fun _ => True) (∃ k, stoll source.balance = .ok k) 0 recipients amounts) := by
  rw [initWithdrawBuffer, restores_clearHash]
  refine restores_firstUnits hR fun sourceMeta => ?_
  rw [restores_pushAtom]
  refine restores_creditRecipients clock hR (fun _ _ h => by cases h) (fun _ => iff_true_intro ⟨_, rfl⟩)
    (fun r as atom => ?_) _ _ _ _ [] _
  refine (restores_read hR (fun _ => thrown_of_stoll) fun balance => restores_remainder).trans ?_
  exact and_iff_left trivial

end Builders

end Molecule

end KnishIO
