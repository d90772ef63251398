import KnishIO.Client.Debits
import KnishIO.Wallet.Splitting

open ByteString

namespace KnishIO

section Units

theorem Atom.carries_iff_map {atoms : List Atom} {sent : List (List TokenUnit)} :
    List.Forall₂ Atom.Carries atoms sent ↔ atoms.map (fun a => (.ok a.meta : Throws Metas)) = sent.map Molecule.unitsMeta := by
  rw [← List.forall₂_eq_iff_map_eq]
  exact ⟨fun h => h.imp fun _ _ h => h.symm, fun h => h.imp fun _ _ h => h.symm⟩

end Units

namespace ValueOperation

open Molecule CFloat Selection

/-- The operations on units. -/
def stackable : ValueOperation → Bool
  | transferToken _ _ _ _ _ | transferTokens _ _ | burnToken _ _ _ => true
  | depositBufferToken _ _ _ | withdrawBufferToken _ _ _ => false

/-- The unit ids that are asked for, one list for each recipient. -/
def requests : ValueOperation → List (List ByteString)
  | transferToken _ _ _ _ units => [units]
  | transferTokens _ recipients => recipients.map (·.units)
  | burnToken _ _ units => [units]
  | _ => []

/-- The atoms that carry the units asked for: those of the recipients, or the source's where units are burnt. -/
def unitHolders (debit : Atom) (credited : List Atom) : ValueOperation → List Atom
  | burnToken _ _ _ => [debit]
  | _ => credited

/-- Values and units agree: every recipient (or the burn) has exactly the units asked for, and the remainder has the
others, each as many as its value says. -/
def UnitsFollowValue (op : ValueOperation) (units : List TokenUnit) (atoms : List Atom) : Prop :=
  ∃ debit credited remainder sent kept, atoms = debit :: credited ++ [remainder] ∧
    List.Forall₂ Atom.Carries (op.unitHolders debit credited) sent ∧ remainder.Carries kept ∧
    HandsOut (·.id) units op.requests sent kept ∧
    List.Forall₂ (fun a given => decimalInt? a.value = some (given.length : Int)) credited sent ∧
    decimalInt? remainder.value = some (kept.length : Int)

/-- The requests fit the units and the amounts. -/
structure Consistent (requests : List (List ByteString)) (units : List TokenUnit) (ks : List Int) : Prop where
  known : ∀ ids ∈ requests, ids ⊆ units.map (·.id)
  disjoint : requests.Pairwise List.Disjoint
  counted : ks = requests.map fun ids => (ids.dedup.length : Int)
  asked : (∀ ids ∈ requests, ids = []) → units = []

/-- What an operation writes for its requests on the units of a row. -/
structure Stacks (op : ValueOperation) (units : List TokenUnit) (balance : ByteString) (ks : List Int) (debit : Atom)
    (credited : List Atom) (remainder : Atom) : Prop where
  values : credited.map (·.value) = ks.map Decimal.ofInt
  rest : ∃ k, stoll balance = .ok k ∧ remainder.value = Decimal.ofInt (k - ks.sum)
  sent : ((∀ ids ∈ op.requests, ids = []) → units = []) →
    List.Forall₂ Atom.Carries (op.unitHolders debit credited) (op.requests.map (select (·.id) units))
  kept : remainder.Carries (if (∀ ids ∈ op.requests, ids = []) then [] else remaining (·.id) units op.requests)

section Stacking

variable {E : Type} {S : Setting E} {w : World E} {op : ValueOperation} {ks : List Int} {m : Molecule}
  {units : List TokenUnit}

theorem kept_singleton (ids : List ByteString) (units : List TokenUnit) :
    (if (∀ x ∈ [ids], x = []) then [] else remaining (·.id) units [ids]) =
      if ids = [] then [] else remaining (·.id) units [ids] := by
  simp only [List.mem_singleton, forall_eq]

theorem Builds.stacks {info : TokenWalletInfo} {b : Builder} {clock : Nat → Int64} {start built : Molecule}
    {atoms : List Atom} (hop : op.stackable = true) (h : op.Builds info ks b) (hfresh : start.atoms = [])
    (hrun : (b.run clock).run start = .ok (atoms, built)) :
    ∃ debit credited remainder, built.atoms = debit :: credited ++ [remainder] ∧
      op.Stacks info.tokenUnits b.source.balance ks debit credited remainder := by
  cases h with
  | @transferToken bundleHash token batchId amount ids k ledger recipient fresh hk hrecipient hremainder =>
    obtain ⟨hsent, hkept⟩ := Wallet.splitUnits_eq (info.fund ledger) ids fresh recipient hrecipient hremainder
    obtain ⟨_, recipientMeta, remainderMeta, balance, spent, -, hto, hleft, hbalance, hspent, rfl⟩ := initValue_ok hrun
    obtain rfl := stoi_ofInt_ok hspent
    rw [appended, hfresh]
    refine ⟨_, [_], _, rfl, rfl, ⟨balance, (stoll_of_stoi hbalance).1, by rw [List.sum_singleton]; rfl⟩, fun _ => ?_, ?_⟩
    · rw [hsent] at hto
      exact .cons hto .nil
    · refine (congrArg unitsMeta (kept_singleton ids info.tokenUnits)).trans ?_
      exact hkept ▸ hleft
  | @burnToken token amount ids k ledger burnWallet fresh hk hburn hremainder =>
    obtain ⟨hsent, hkept⟩ := Wallet.splitUnits_burn (info.fund ledger) ids fresh hremainder
    obtain ⟨sourceMeta, _, remainderMeta, balance, spent, hfrom, -, hleft, hbalance, hspent, rfl⟩ := initValue_ok hrun
    obtain rfl := stoi_ofInt_ok hspent
    rw [appended, hfresh]
    refine ⟨_, [_], _, rfl, rfl, ⟨balance, (stoll_of_stoi hbalance).1, by rw [List.sum_singleton]; rfl⟩, fun hasked => ?_, ?_⟩
    · rw [hsent] at hfrom
      · exact .cons hfrom .nil
      · by_cases hids : ids = []
        · exact .inr (hasked (by simp [requests, hids]))
        · exact .inl hids
    · refine (congrArg unitsMeta (kept_singleton ids info.tokenUnits)).trans ?_
      exact hkept ▸ hleft
  | @transferTokens token recipients ks ledger shadows fresh hks hhigh hlength hempty hremainder =>
    obtain ⟨hsent, hkept⟩ := Wallet.splitUnitsMulti_eq (info.fund ledger) fresh
      (hlength.trans (List.length_map fun r : TransferRecipient => r.units).symm) hempty hremainder
    obtain ⟨_, r, remainderMeta, balance, -, hcredits, hleft, hbalance, rfl⟩ := initValues_ok hrun
    have hamounts : ks.length = ((info.fund ledger).splitUnitsMulti (recipients.map (·.units)) shadows fresh).2.1.length := by
      rw [length_splitUnitsMulti, hlength, (Throws.mapM_ok_iff.mp hks).length_eq]
    obtain ⟨heach, hvalues, -⟩ := credits_ok ((List.length_map _).trans hamounts) hcredits
    obtain ⟨htotal, -⟩ := credits_total hamounts (by norm_num) hcredits
    rw [appended, hfresh]
    refine ⟨_, r.1, _, rfl, hvalues, ⟨balance, hbalance, ?_⟩, fun _ => ?_, ?_⟩
    · rw [htotal, zero_add]
      rfl
    · refine Atom.carries_iff_map.mpr ?_
      have hmetas := List.forall₂_eq_iff_map_eq.mp (heach.imp fun _ _ h => h.metas)
      have hgiven := congrArg (List.map unitsMeta) hsent
      rw [List.map_map] at hgiven
      exact hmetas.symm.trans hgiven
    · have hleft : unitsMeta (if (∀ ids ∈ recipients.map (·.units), ids = []) then []
          else remaining (·.id) info.tokenUnits (recipients.map (·.units))) = .ok remainderMeta := hkept ▸ hleft
      exact hleft
  | depositBufferToken => cases hop
  | withdrawRow => cases hop
  | withdrawGiven => cases hop

theorem Stacks.follows_iff {balance : ByteString} {debit remainder : Atom} {credited : List Atom}
    (h : op.Stacks units balance ks debit credited remainder) (hnodup : (units.map (·.id)).Nodup)
    (hbalance : stoll balance = .ok (units.length : Int)) :
    op.UnitsFollowValue units (debit :: credited ++ [remainder]) ↔ Consistent op.requests units ks := by
  obtain ⟨k, hk, hrest⟩ := h.rest
  obtain rfl : (units.length : Int) = k := Except.ok.inj (hbalance.symm.trans hk)
  have hcredited : credited.map (fun a => decimalInt? a.value) = ks.map some :=
    List.forall₂_eq_iff_map_eq.mp (carry_of_values h.values)
  constructor
  · rintro ⟨debit', credited', remainder', sent, kept, hatoms, -, hkept, hhands, hvalues, -⟩
    obtain ⟨rfl, hlist⟩ := List.cons.inj hatoms
    obtain ⟨rfl, hlast⟩ := List.append_inj' hlist rfl
    obtain rfl := List.singleton_inj.mp hlast
    have hcounted := hhands.counted hnodup
    refine ⟨hhands.known, hhands.disjoint hnodup, ?_, fun hall => ?_⟩
    · have hgiven := List.forall₂_eq_iff_map_eq.mp hvalues
      rw [hcredited] at hgiven
      have hlengths : ks = sent.map fun given => (given.length : Int) := by
        refine List.map_injective_iff.mpr (Option.some_injective Int) ?_
        rw [hgiven, List.map_map]
        rfl
      rw [hlengths]
      exact (List.forall₂_eq_iff_map_eq.mp (hcounted.imp fun _ _ h => by rw [h])).symm
    · have hnone : kept = [] := by
        have hmeta := h.kept
        rw [if_pos hall] at hmeta
        exact hkept.eq_nil (Except.ok.inj hmeta).symm
      have hempty : ∀ given ∈ sent, given = [] := by
        intro given hgiven
        obtain ⟨ids, hids, hlength⟩ := hcounted.flip.exists_of_mem hgiven
        rw [hall ids hids] at hlength
        exact List.eq_nil_of_length_eq_zero hlength
      have hwhole := hhands.whole
      rw [List.flatten_eq_nil_iff.mpr hempty, hnone] at hwhole
      exact hwhole.nil_eq.symm
  · intro hconsistent
    have hhands := handsOut_select hconsistent.known hconsistent.disjoint
    have hcounted := List.forall₂_eq_iff_map_eq.mp ((hhands.counted hnodup).imp fun _ _ h => h.symm)
    have hkept := h.kept
    have hif : (if (∀ ids ∈ op.requests, ids = []) then [] else remaining (·.id) units op.requests) =
        remaining (·.id) units op.requests := by
      split
      next hall =>
        rw [hconsistent.asked hall]
        rfl
      next => rfl
    rw [hif] at hkept
    have hks : ks = (op.requests.map (select (·.id) units)).map fun given => (given.length : Int) := by
      rw [hconsistent.counted]
      have hcast := congrArg (List.map (Nat.cast (R := Int))) hcounted
      rw [List.map_map, List.map_map] at hcast
      exact hcast
    refine ⟨_, _, _, _, _, rfl, h.sent hconsistent.asked, hkept, hhands, ?_, ?_⟩
    · refine List.forall₂_eq_iff_map_eq.mpr ?_
      rw [hcredited, hks, List.map_map]
      rfl
    · have hsum : ks.sum = (((op.requests.map (select (·.id) units)).map List.length).sum : Nat) := by
        rw [hks, Nat.cast_list_sum, List.map_map (g := Nat.cast)]
        rfl
      have hlength := hhands.whole.length_eq
      rw [List.length_append, List.length_flatten] at hlength
      rw [hrest, decimalInt?_ofInt, hsum, ← hlength, Nat.cast_add, add_sub_cancel_left]

/-- Only the metas and the values count. -/
theorem UnitsFollowValue.congr {xs ys : List Atom} (h : op.UnitsFollowValue units xs)
    (hsame : ys.map Atom.unsigned = xs.map Atom.unsigned) : op.UnitsFollowValue units ys := by
  obtain ⟨debit, credited, remainder, sent, kept, rfl, hsent, hkept, hhands, hvalues, hrest⟩ := h
  rw [List.map_append, List.map_cons, List.map_singleton] at hsame
  obtain ⟨front, back, rfl, hfront, hback⟩ := List.map_eq_append_iff.mp hsame
  obtain ⟨first, rest, rfl, hfirst, hcredited⟩ := List.map_eq_cons_iff.mp hfront
  obtain ⟨last, hlast, hremainder⟩ := List.map_eq_singleton_iff.mp hback
  subst hlast
  have hmeta {a b : Atom} (hab : a.unsigned = b.unsigned) : a.meta = b.meta := by
    have hfields := congrArg (fun x : Atom => x.meta) hab
    exact hfields
  have hvalue {a b : Atom} (hab : a.unsigned = b.unsigned) : a.value = b.value := by
    have hfields := congrArg (fun x : Atom => x.value) hab
    exact hfields
  have hholders : (op.unitHolders first rest).map (·.meta) = (op.unitHolders debit credited).map (·.meta) := by
    have hmetas := congrArg (List.map fun x : Atom => x.meta) hcredited
    rw [List.map_map, List.map_map] at hmetas
    cases op with
    | burnToken => exact congrArg (fun x => [x]) (hmeta hfirst)
    | transferToken | transferTokens | depositBufferToken | withdrawBufferToken => exact hmetas
  refine ⟨first, rest, last, sent, kept, rfl, ?_, ?_, hhands, ?_, ?_⟩
  · rw [Atom.carries_iff_map] at hsent ⊢
    have hok := congrArg (List.map fun metas => (.ok metas : Throws Metas)) hholders
    rw [List.map_map, List.map_map] at hok
    exact hok.trans hsent
  · rwa [Atom.Carries, hmeta hremainder]
  · have hsigned := congrArg (List.map fun x : Atom => decimalInt? x.value) hcredited
    rw [List.map_map, List.map_map] at hsigned
    exact List.forall₂_eq_iff_map_eq.mpr (hsigned.trans (List.forall₂_eq_iff_map_eq.mp hvalues))
  · rwa [hvalue hremainder]

theorem Proposes.follows_iff {secret : Secret} (hop : op.stackable = true)
    (hnodup : ((op.row S w).tokenUnits.map (·.id)).Nodup)
    (hbalance : stoll (op.balance S w) = .ok ((op.row S w).tokenUnits.length : Int)) (h : op.Proposes S w ks secret m) :
    op.UnitsFollowValue (op.row S w).tokenUnits m.atoms ↔ Consistent op.requests (op.row S w).tokenUnits ks := by
  obtain ⟨b, cellSlug, source, remainder, hbuilds, -, hsigned⟩ := h
  obtain ⟨clock, atoms, built, hrun, hsame⟩ := hsigned.unsigned
  obtain ⟨debit, credited, rest, hatoms, hstacks⟩ := hbuilds.stacks hop rfl hrun
  rw [hbuilds.source_balance] at hstacks
  have hiff := hstacks.follows_iff hnodup hbalance
  rw [← hatoms] at hiff
  exact ⟨fun h => hiff.mp (h.congr hsame.symm), fun h => (hiff.mpr h).congr hsame⟩

/-- An operation that sends a molecule gives out and keeps the units that its values count if and only if the ids asked
for are known, are asked for once and are as many as the amounts, and some id is asked for where there are units. -/
theorem unitsFollowValue_iff (hop : op.stackable = true) (hnodup : ((op.row S w).tokenUnits.map (·.id)).Nodup)
    (hbalance : stoll (op.balance S w) = .ok ((op.row S w).tokenUnits.length : Int))
    (hsends : Sends w ((op.run S).exec w).2 m) :
    op.UnitsFollowValue (op.row S w).tokenUnits m.atoms ↔
      ∃ ks, op.amounts = .ok ks ∧ Consistent op.requests (op.row S w).tokenUnits ks := by
  obtain ⟨ks, secret, hproposes, hks⟩ := proposes_of_sends hsends
  have hiff := hproposes.follows_iff hop hnodup hbalance
  constructor
  · intro h
    exact ⟨ks, hks, hiff.mp h⟩
  · rintro ⟨ks', hks', hconsistent⟩
    obtain rfl : ks = ks' := Except.ok.inj (hks.symm.trans hks')
    exact hiff.mpr hconsistent

end Stacking

section Example

def unitNamed (id : String) : TokenUnit := { id := ascii id, name := ascii "U" }

/-- A wallet of the units a and b. -/
def unitsReply : Reply :=
  balanceReply "2" "[\x7b\"id\":\"a\",\"name\":\"U\"\x7d,\x7b\"id\":\"b\",\"name\":\"U\"\x7d]"

def twoUnits : World (List Reply) := sampleWorld unitsReply

theorem unitsReply_row : unitsReply.tokenWallet integersOnly = sampleRow (ascii "2") [unitNamed "a", unitNamed "b"] := by
  decide +kernel

/-- A transfer of the unit a. -/
def unitTransfer (k : Int) : ValueOperation := .transferToken (ascii "0d") (ascii "T") (.finite k) [] [ascii "a"]

theorem unitTransfer_sends {k : Int} (h : k = 1 ∨ k = 2) :
    (unitTransfer k).amounts = .ok [k] ∧ ∃ m, Sends twoUnits (((unitTransfer k).run scripted).exec twoUnits).2 m := by
  have hk : toLongLong (.finite k) = .ok k := by
    obtain rfl | rfl := h <;> decide
  have hguard : k ≤ spendable (ascii "2") := by
    obtain rfl | rfl := h <;> decide +kernel
  have hspent : stoi (Decimal.ofInt k) = .ok k := by
    obtain rfl | rfl := h <;> decide
  have hrest : signed 32 (2 - k) = .ok (2 - k) := by
    obtain rfl | rfl := h <;> decide
  have hsent : unitsMeta [unitNamed "a"] = .ok [(ascii "tokenUnits", ascii "[[\"a\",\"U\",\x7b\x7d]]")] := by
    decide +kernel
  have hkept : unitsMeta [unitNamed "b"] = .ok [(ascii "tokenUnits", ascii "[[\"b\",\"U\",\x7b\x7d]]")] := by
    decide
  have hsums : tokenSums [] (sampleBuilt (ascii "2") (Decimal.ofInt k) (Decimal.ofInt (2 - k)) [unitNamed "a"] [unitNamed "b"]
      [(ascii "tokenUnits", ascii "[[\"a\",\"U\",\x7b\x7d]]")]
      [(ascii "tokenUnits", ascii "[[\"b\",\"U\",\x7b\x7d]]")]).atoms = .ok true := by
    obtain rfl | rfl := h <;> decide +kernel
  have hsplit : Wallet.splitUnits (sampleSource (ascii "2") [unitNamed "a", unitNamed "b"]) [ascii "a"] (sampleRemainder [])
      (some (sampleRecipient [])) =
        (sampleSource (ascii "2") [unitNamed "a"], sampleRemainder [unitNamed "b"], some (sampleRecipient [unitNamed "a"])) := by
    decide +kernel
  obtain ⟨u, m, hquiet, hrun, -⟩ := transferToken_sample unitsReply_row hk hguard hsplit (by decide) hspent hrest hsent
    hkept hsums rfl (by decide) (by decide)
  refine ⟨by rw [unitTransfer, amounts, hk]; rfl, m, ?_⟩
  have hop : (unitTransfer k).run scripted =
      KnishIO.transferToken scripted (ascii "0d") (ascii "T") (.finite k) [] [ascii "a"] := rfl
  rw [hop, twoUnits, hrun]
  exact hquiet.sends_proposed sampleSecret m

theorem unitTransfer_row (k : Int) :
    (unitTransfer k).row scripted twoUnits = sampleRow (ascii "2") [unitNamed "a", unitNamed "b"] := unitsReply_row

theorem unitTransfer_units (k : Int) :
    (((unitTransfer k).row scripted twoUnits).tokenUnits.map (·.id)).Nodup ∧
      stoll ((unitTransfer k).balance scripted twoUnits) =
        .ok (((unitTransfer k).row scripted twoUnits).tokenUnits.length : Int) := by
  have hbalance : (unitTransfer k).balance scripted twoUnits = ((unitTransfer k).row scripted twoUnits).balance := rfl
  rw [hbalance, unitTransfer_row]
  decide +kernel

theorem unitsFollowValue_iff_unit :
    ∃ m, Sends twoUnits (((unitTransfer 1).run scripted).exec twoUnits).2 m ∧
      ((unitTransfer 1).UnitsFollowValue ((unitTransfer 1).row scripted twoUnits).tokenUnits m.atoms ↔
        ∃ ks, (unitTransfer 1).amounts = .ok ks ∧
          Consistent (unitTransfer 1).requests ((unitTransfer 1).row scripted twoUnits).tokenUnits ks) := by
  obtain ⟨-, m, hsends⟩ := unitTransfer_sends (.inl rfl)
  obtain ⟨hnodup, hbalance⟩ := unitTransfer_units 1
  exact ⟨m, hsends, unitsFollowValue_iff rfl hnodup hbalance hsends⟩

/-- A transfer of the value 2 with one unit id is sent, and credits the recipient with more than its one unit. -/
theorem transferToken_uncounted :
    ∃ m, Sends twoUnits (((unitTransfer 2).run scripted).exec twoUnits).2 m ∧
      (((unitTransfer 2).row scripted twoUnits).tokenUnits.map (·.id)).Nodup ∧
      stoll ((unitTransfer 2).balance scripted twoUnits) =
        .ok (((unitTransfer 2).row scripted twoUnits).tokenUnits.length : Int) ∧
      ¬ (unitTransfer 2).UnitsFollowValue ((unitTransfer 2).row scripted twoUnits).tokenUnits m.atoms := by
  obtain ⟨hamounts, m, hsends⟩ := unitTransfer_sends (.inr rfl)
  obtain ⟨hnodup, hbalance⟩ := unitTransfer_units 2
  refine ⟨m, hsends, hnodup, hbalance, fun hfollows => ?_⟩
  obtain ⟨ks, secret, hproposes, hks⟩ := proposes_of_sends hsends
  have hcounted := ((hproposes.follows_iff rfl hnodup hbalance).mp hfollows).counted
  obtain rfl : [2] = ks := Except.ok.inj (hamounts.symm.trans hks)
  exact absurd hcounted (by decide)

end Example

end ValueOperation

end KnishIO
