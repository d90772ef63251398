import KnishIO.Molecule.Rollback
import KnishIO.Wallet.Splitting

open ByteString

namespace KnishIO

namespace Molecule

open Selection

section Resolving

variable {units : List TokenUnit} {ids : List ByteString} {fused : List TokenUnit} {e : Exception}

/-- The ids are resolved when each of them names a unit, to the units they pick. -/
theorem resolveUnits_of_known (hknown : ids ⊆ units.map (·.id)) :
    resolveUnits units ids = .ok (pick (·.id) units ids) := by
  induction ids with
  | nil => rfl
  | cons id ids ih =>
    obtain ⟨hid, hids⟩ := List.cons_subset.mp hknown
    obtain ⟨u, hu, hsame⟩ := List.mem_map.mp hid
    have hfound : (units.find? fun u => u.id = id).isSome := List.find?_isSome.mpr ⟨u, hu, by simpa using hsame⟩
    obtain ⟨unit, hunit⟩ := Option.isSome_iff_exists.mp hfound
    rw [pick_cons_of_find hunit]
    unfold resolveUnits
    rw [hunit]
    dsimp only
    rw [ih hids]
    rfl

theorem known_of_resolveUnits (h : resolveUnits units ids = .ok fused) : ids ⊆ units.map (·.id) := by
  induction ids generalizing fused with
  | nil => exact List.nil_subset _
  | cons id ids ih =>
    unfold resolveUnits at h
    split at h
    · cases h
    next unit hunit =>
      obtain ⟨rest, hrest, -⟩ := Throws.map_ok h
      have hid : unit.id = id := by simpa using List.find?_some hunit
      exact List.cons_subset.mpr ⟨List.mem_map.mpr ⟨unit, List.mem_of_find?_eq_some hunit, hid⟩, ih hrest⟩

theorem thrown_of_resolveUnits (h : resolveUnits units ids = .error e) : Thrown e := by
  induction ids with
  | nil => cases h
  | cons id ids ih =>
    unfold resolveUnits at h
    split at h
    · obtain rfl := Except.error.inj h
      exact nofun
    · cases hrest : resolveUnits units ids with
      | ok rest =>
        rw [hrest] at h
        cases h
      | error e' =>
        rw [hrest] at h
        obtain rfl := Except.error.inj h
        exact ih hrest

end Resolving

theorem utf8_fusedUnitJson {newTokenUnitId : ByteString} {fused : List TokenUnit} :
    (Json.arr [fusedUnitJson newTokenUnitId fused]).utf8 = true ↔ Utf8.valid newTokenUnitId = true ∧ Writable fused := by
  have hkey : Utf8.valid (ascii "fusedTokenUnits") = true := by decide
  have hfused : Json.utf8Items (fused.map Wallet.unitTriple) = true ↔ Writable fused := by
    rw [Json.utf8Items_iff, List.forall_mem_map]
    rfl
  simp [fusedUnitJson, Json.utf8, Json.utf8Items, Json.utf8Members, hkey, hfused]

/-- What the builder checks before it touches the molecule. -/
structure Accepts (source : Wallet) (ids : List ByteString) (newId : ByteString) : Prop where
  several : 2 ≤ ids.length
  known : ids ⊆ source.tokenUnits.map (·.id)
  fresh : newId ∉ source.tokenUnits.map (·.id)
  utf8 : Utf8.valid newId = true
  writable : Writable (pick (·.id) source.tokenUnits ids)
  balance : ∃ held, stoll source.balance = .ok held

theorem remaining_singleton (units : List TokenUnit) (ids : List ByteString) :
    remaining (·.id) units [ids] = units.filter fun u => !Wallet.idInList ids u := by
  rw [Wallet.remaining_eq]
  simp

section Acceptance

variable {clock : Nat → Int64} {drawn : ByteString × ByteString} {source recipient remainder : Wallet}
  {ids : List ByteString} {newId : ByteString} {m : Molecule} {held : Int}

theorem Accepts.json (h : Accepts source ids newId) :
    ∃ text, dumpJson (.arr [fusedUnitJson newId (pick (·.id) source.tokenUnits ids)]) = .ok text := by
  rw [dumpJson, Json.dump_of_utf8 (utf8_fusedUnitJson.mpr ⟨h.utf8, h.writable⟩)]
  exact ⟨_, rfl⟩

theorem Accepts.not_any (h : Accepts source ids newId) : (source.tokenUnits.any fun u => u.id = newId) = false := by
  simpa using h.fresh

/-- A refusal comes before anything else. -/
theorem initTokenFusion_refuses (clock : Nat → Int64) (drawn : ByteString × ByteString) (recipient remainder : Wallet)
    (m : Molecule) (h : ¬ Accepts source ids newId) :
    ∃ e, Thrown e ∧ (initTokenFusion clock drawn source recipient remainder ids newId).exec m = (.error e, m) := by
  by_cases hfew : ids.length < 2
  · simp only [initTokenFusion, hfew, ↓reduceIte]
    refine ⟨_, ?_, rfl⟩
    intro h
    cases h
  simp only [initTokenFusion, hfew, ↓reduceIte, Act.exec_bind, Act.exec_ofExcept]
  cases hfused : resolveUnits source.tokenUnits ids with
  | error e => exact ⟨e, thrown_of_resolveUnits hfused, rfl⟩
  | ok fused =>
    have hknown := known_of_resolveUnits hfused
    obtain rfl := Except.ok.inj (hfused.symm.trans (resolveUnits_of_known hknown))
    rw [Act.andThen_ok]
    by_cases hexists : (source.tokenUnits.any fun u => u.id = newId) = true
    · simp only [hexists, ↓reduceIte]
      refine ⟨_, ?_, rfl⟩
      intro h
      cases h
    simp only [hexists, Bool.false_eq_true, ↓reduceIte, Act.exec_bind, Act.exec_ofExcept]
    cases hjson : dumpJson (.arr [fusedUnitJson newId (pick (·.id) source.tokenUnits ids)]) with
    | error e => exact ⟨e, thrown_of_dumpJson hjson, rfl⟩
    | ok text =>
      obtain ⟨hnewId, hwritable⟩ := utf8_fusedUnitJson.mp (dumpJson_ok hjson).1
      cases hbalance : stoll source.balance with
      | error e => exact ⟨e, thrown_of_stoll hbalance, rfl⟩
      | ok held => exact absurd ⟨by omega, hknown, by simpa using hexists, hnewId, hwritable, held, hbalance⟩ h

theorem restores_initTokenFusion {R : Molecule → Prop} (hR : Observes R m) :
    Act.Restores Thrown R (initTokenFusion clock drawn source recipient remainder ids newId) m ↔
      (Accepts source ids newId →
        (Writable (select (·.id) source.tokenUnits ids) ∨ m.molecularHash = []) ∧
          (Writable (select (·.id) source.tokenUnits ids) → ∀ held, stoll source.balance = .ok held →
            -2 ^ 63 ≤ held - ids.length → Writable (remaining (·.id) source.tokenUnits [ids]))) := by
  by_cases h : Accepts source ids newId
  · obtain ⟨held, hheld⟩ := h.balance
    obtain ⟨text, htext⟩ := h.json
    have hburned : Writable (pick (·.id) source.tokenUnits ids).dropLast :=
      fun u hu => h.writable u (List.mem_of_mem_dropLast hu)
    have hseveral := h.several
    rw [initTokenFusion, if_neg (by omega), resolveUnits_of_known h.known]
    refine Act.restores_ok_bind.trans ?_
    rw [h.not_any, if_neg Bool.false_ne_true, htext, hheld]
    refine (Act.restores_ok_bind.trans Act.restores_ok_bind).trans ?_
    simp only [← Wallet.select_eq, ← remaining_singleton, h, true_implies, Except.ok.injEq, forall_eq']
    rw [restores_clearHash]
    refine restores_firstUnits hR fun sentMeta => ?_
    rw [restores_pushAtom]
    refine (restores_units hR fun burnedMeta => ?_).trans (and_iff_right hburned)
    rw [restores_pushAtom, restores_pushAtom, restores_signed, length_pick h.known]
    have hhigh := (stoll_range hheld).2
    refine (imp_congr (and_iff_left (by omega)) Iff.rfl).trans (imp_congr_right fun _ => ?_)
    refine (restores_units hR fun keptMeta => ?_).trans (and_iff_left trivial)
    rw [restores_pushAtom]
    exact iff_true_intro restores_builtAtoms
  · obtain ⟨e, he, hexec⟩ := initTokenFusion_refuses clock drawn recipient remainder m h
    rw [Act.restores_iff_of_exec_error hexec he]
    exact iff_of_true hR.start fun haccepts => absurd haccepts h

end Acceptance

section Wire

/-- A unit that can be written can be read back. -/
theorem valid_unitTriple (F : Json.FloatText) {u : TokenUnit} (h : (Wallet.unitTriple u).utf8 = true) :
    (Wallet.unitTriple u).Valid F := by
  obtain ⟨hid, hname, hmetas⟩ : Utf8.valid u.id = true ∧ Utf8.valid u.name = true ∧
      (Json.object (u.metas.map fun m => (m.1, Json.str m.2))).utf8 = true := by
    simpa [Wallet.unitTriple, Json.utf8, Json.utf8Items] using h
  have hvalid : (Json.object (u.metas.map fun m => (m.1, Json.str m.2))).Valid F := by
    refine ⟨Json.sorted_assign _ List.Pairwise.nil, (Json.validMembers_iff F _).mpr fun m hm => ?_⟩
    obtain ⟨hkey, hvalue⟩ := (Json.utf8Members_iff _).mp hmetas m hm
    obtain hmem | hnone := Json.mem_assign hm
    · obtain ⟨pair, -, rfl⟩ := List.mem_map.mp hmem
      exact ⟨hkey, hvalue⟩
    · cases hnone
  exact Json.valid_arr (by simpa using ⟨hid, hname, hvalid⟩)

theorem unitTriples_of_unitsMeta {us vs : List TokenUnit} {metas : Metas} (hus : unitsMeta us = .ok metas)
    (hvs : unitsMeta vs = .ok metas) : us.map Wallet.unitTriple = vs.map Wallet.unitTriple := by
  have hvalid {units : List TokenUnit} (h : unitsMeta units = .ok metas) :
      (Json.arr (units.map Wallet.unitTriple)).Valid integersOnly := by
    refine Json.valid_arr (List.forall_mem_map.mpr fun u hu => ?_)
    exact valid_unitTriple integersOnly (writable_of_unitsMeta h u hu)
  have htext {units : List TokenUnit} (h : unitsMeta units = .ok metas) (hne : units ≠ []) :
      metas = [(ascii "tokenUnits", (Json.arr (units.map Wallet.unitTriple)).text)] := by
    rw [unitsMeta, if_neg hne] at h
    obtain ⟨text, htext, rfl⟩ := Throws.map_ok h
    rw [(dumpJson_ok htext).2]
  have hnone (h : unitsMeta [] = .ok metas) : metas = [] := (Except.ok.inj h).symm
  by_cases hus' : us = []
  · subst hus'
    by_cases hvs' : vs = []
    · rw [hvs']
    · cases (hnone hus).symm.trans (htext hvs hvs')
  by_cases hvs' : vs = []
  · subst hvs'
    cases (hnone hvs).symm.trans (htext hus hus')
  have hsame := (htext hus hus').symm.trans (htext hvs hvs')
  simp only [List.cons.injEq, Prod.mk.injEq, and_true, true_and] at hsame
  exact Json.arr.inj (Json.text_injective (hvalid hus) (hvalid hvs) hsame)

end Wire

section Conservation

/-- The four atoms of a fusion: the source gives up the named units, all but the last of them are burnt, the new unit
lists them, and the remainder has the others. -/
structure Conserves (source : Wallet) (ids : List ByteString) (newId : ByteString) (fused : List TokenUnit)
    (debit burn fusion rest : Atom) : Prop where
  isotopes : [debit, burn, fusion, rest].map (·.isotope) = ["V", "V", "F", "V"].map ascii
  named : fused.map (·.id) = ids
  owned : fused ⊆ source.tokenUnits
  sent : ∃ units, debit.Carries units ∧ units.length = ids.length ∧ units.Nodup ∧ units.Perm fused
  burnt : burn.Carries (fused.take (ids.length - 1))
  burntValue : burn.value = Decimal.ofInt (ids.length - 1)
  listed : ∃ text, dumpJson (.arr [fusedUnitJson newId fused]) = .ok text ∧ fusion.meta = [(ascii "tokenUnits", text)]
  newValue : fusion.value = ascii "1"
  kept : rest.Carries (source.tokenUnits.filter fun u => u.id ∉ ids)
  keptValue : rest.value = Decimal.ofInt (source.tokenUnits.filter fun u => u.id ∉ ids).length
  fresh : newId ∉ source.tokenUnits.map (·.id)

variable {clock : Nat → Int64} {drawn : ByteString × ByteString} {source recipient remainder : Wallet}
  {ids : List ByteString} {newId : ByteString} {m : Molecule} {held : Int}

/-- An accepted fusion writes its atoms unless some units cannot be written. -/
theorem run_initTokenFusion_accepted (clock : Nat → Int64) (drawn : ByteString × ByteString) (recipient remainder : Wallet)
    (m : Molecule) (h : Accepts source ids newId) (hheld : stoll source.balance = .ok held) :
    ∃ text, dumpJson (.arr [fusedUnitJson newId (pick (·.id) source.tokenUnits ids)]) = .ok text ∧
      (initTokenFusion clock drawn source recipient remainder ids newId).run m = do
        let sentMeta ← unitsMeta (select (·.id) source.tokenUnits ids)
        let burnedMeta ← unitsMeta (pick (·.id) source.tokenUnits ids).dropLast
        let remainderAmount ← KnishIO.signed 64 (held - ids.length)
        let keptMeta ← unitsMeta (remaining (·.id) source.tokenUnits [ids])
        let built := m.appended (fusionAtoms clock drawn source recipient remainder ids.length sentMeta burnedMeta
          keptMeta text remainderAmount)
        return (built.atoms, built) := by
  obtain ⟨text, htext⟩ := h.json
  have hseveral := h.several
  refine ⟨text, htext, ?_⟩
  rw [run_initTokenFusion, if_neg (by omega), resolveUnits_of_known h.known, Wallet.select_eq, remaining_singleton]
  simp only [bind, Except.bind, h.not_any, Bool.false_eq_true, ↓reduceIte, htext, hheld, length_pick h.known]

/-- The builder throws and leaves the molecule as it was, or it appends four atoms that conserve the units. -/
def FusesOrRefuses (clock : Nat → Int64) (drawn : ByteString × ByteString) (source recipient remainder : Wallet)
    (ids : List ByteString) (newId : ByteString) (m : Molecule) : Prop :=
  (∃ e, Thrown e ∧ (initTokenFusion clock drawn source recipient remainder ids newId).exec m = (.error e, m)) ∨
    ∃ built fused debit burn fusion rest,
      (initTokenFusion clock drawn source recipient remainder ids newId).exec m = (.ok built.atoms, built) ∧
      built.atoms = m.atoms ++ [debit, burn, fusion, rest] ∧ Conserves source ids newId fused debit burn fusion rest

section Distinct

variable (hnodup : (source.tokenUnits.map (·.id)).Nodup) (hbalance : stoll source.balance = .ok source.tokenUnits.length)
  (h : Accepts source ids newId)

include hnodup h

theorem Accepts.writable_select : Writable (select (·.id) source.tokenUnits ids) :=
  fun u hu => h.writable u (select_subset_pick hnodup h.known hu)

include hbalance

/-- Distinct ids: as many units leave the source as are counted, so every value is the length of its list. -/
theorem fuses_of_nodup (clock : Nat → Int64) (drawn : ByteString × ByteString) (recipient remainder : Wallet) (m : Molecule)
    (hids : ids.Nodup) (hkept : Writable (remaining (·.id) source.tokenUnits [ids])) :
    FusesOrRefuses clock drawn source recipient remainder ids newId m := by
  obtain ⟨text, htext, hrun⟩ := run_initTokenFusion_accepted clock drawn recipient remainder m h hbalance
  obtain ⟨sentMeta, hsent⟩ := unitsMeta_of_writable (h.writable_select hnodup)
  obtain ⟨burnedMeta, hburned⟩ := unitsMeta_of_writable fun u hu => h.writable u (List.mem_of_mem_dropLast hu)
  obtain ⟨keptMeta, hkeptMeta⟩ := unitsMeta_of_writable hkept
  have hperm := select_perm_pick hnodup h.known hids
  have hlength : (select (·.id) source.tokenUnits ids).length = ids.length := hperm.length_eq.trans (length_pick h.known)
  have hcount : (select (·.id) source.tokenUnits ids).length + (remaining (·.id) source.tokenUnits [ids]).length =
      source.tokenUnits.length := length_select_add_remaining
  have hleft : (source.tokenUnits.length : Int) - ids.length = (remaining (·.id) source.tokenUnits [ids]).length := by omega
  have hrange := stoll_range hbalance
  have hsigned : KnishIO.signed 64 ((source.tokenUnits.length : Int) - ids.length) =
      .ok ((remaining (·.id) source.tokenUnits [ids]).length : Int) := signed_ok.mpr ⟨hleft.symm, by omega, by omega⟩
  rw [hsent, hburned, hkeptMeta, hsigned] at hrun
  have hother : (source.tokenUnits.filter fun u => u.id ∉ ids) = remaining (·.id) source.tokenUnits [ids] :=
    List.filter_congr fun u _ => by simp
  have htake : (pick (·.id) source.tokenUnits ids).take (ids.length - 1) = (pick (·.id) source.tokenUnits ids).dropLast := by
    rw [List.dropLast_eq_take, length_pick h.known]
  refine .inr ⟨_, pick (·.id) source.tokenUnits ids, _, _, _, _, Act.run_eq_ok.mp hrun, rfl, ?_⟩
  exact {
    isotopes := rfl
    named := map_key_pick h.known
    owned := pick_subset
    sent := ⟨_, hsent, hlength, (hnodup.of_map _).sublist sublist_select, hperm⟩
    burnt := by rwa [htake]
    burntValue := rfl
    listed := ⟨text, htext, rfl⟩
    newValue := rfl
    kept := by rwa [hother]
    keptValue := by rw [hother]; rfl
    fresh := h.fresh }

/-- An accepted fusion cannot throw and leave the molecule as it was. -/
theorem not_refused_of_accepts {e : Exception} (he : Thrown e) :
    (initTokenFusion clock drawn source recipient remainder ids newId).exec m ≠ (.error e, m) := by
  intro hexec
  have hrestores : Act.Restores Thrown (· = m) (initTokenFusion clock drawn source recipient remainder ids newId) m :=
    (Act.restores_iff_of_exec_error hexec he).mpr rfl
  have hkept := ((restores_initTokenFusion (observes_self m)).mp hrestores h).2 (h.writable_select hnodup) _ hbalance
  obtain ⟨sentMeta, hsent⟩ := unitsMeta_of_writable (h.writable_select hnodup)
  obtain ⟨burnedMeta, hburned⟩ := unitsMeta_of_writable fun u hu => h.writable u (List.mem_of_mem_dropLast hu)
  obtain ⟨text, -, hrun⟩ := run_initTokenFusion_accepted clock drawn recipient remainder m h hbalance
  have hthrow : (initTokenFusion clock drawn source recipient remainder ids newId).run m = .error e := by
    rw [Act.run, hexec]
  rw [hthrow, hsent, hburned] at hrun
  -- the remainder overflows, which is no throw, or everything is written
  cases hsigned : KnishIO.signed 64 ((source.tokenUnits.length : Int) - ids.length) with
  | error e' =>
    rw [hsigned] at hrun
    obtain rfl : e = e' := Except.error.inj hrun
    exact he (signed_undefined hsigned)
  | ok remainderAmount =>
    obtain ⟨keptMeta, hkeptMeta⟩ := unitsMeta_of_writable (hkept (signed_ok.mp hsigned).2.1)
    rw [hsigned, hkeptMeta] at hrun
    cases hrun

/-- What is counted leaves the source only where the ids are distinct. -/
theorem nodup_of_fuses (hfuses : FusesOrRefuses clock drawn source recipient remainder ids newId m) :
    ids.Nodup ∧ Writable (remaining (·.id) source.tokenUnits [ids]) := by
  obtain ⟨e, he, hexec⟩ | ⟨built, fused, debit, burn, fusion, rest, hexec, hatoms, hconserves⟩ := hfuses
  · exact absurd hexec (not_refused_of_accepts hnodup hbalance h he)
  obtain ⟨text, -, hrun⟩ := run_initTokenFusion_accepted clock drawn recipient remainder m h hbalance
  rw [Act.run_eq_ok.mpr hexec] at hrun
  obtain ⟨sentMeta, hsent, hrun⟩ := Throws.bind_ok hrun.symm
  obtain ⟨burnedMeta, -, hrun⟩ := Throws.bind_ok hrun
  obtain ⟨remainderAmount, -, hrun⟩ := Throws.bind_ok hrun
  obtain ⟨keptMeta, hkept, hrun⟩ := Throws.bind_ok hrun
  obtain ⟨-, rfl⟩ := Prod.mk.inj (Except.ok.inj hrun)
  obtain ⟨rfl, -⟩ := List.cons.inj (List.append_cancel_left hatoms)
  obtain ⟨units, hunits, hlength, -, -⟩ := hconserves.sent
  have hcarried := congrArg List.length (unitTriples_of_unitsMeta hsent hunits)
  rw [List.length_map, List.length_map, hlength] at hcarried
  exact ⟨nodup_of_length_select hnodup h.known hcarried, writable_of_unitsMeta hkept⟩

end Distinct

/-- A fusion conserves the units exactly when it is refused at the start, or its ids are distinct and the units that
are kept can be written. -/
theorem initTokenFusion_conserves_iff (clock : Nat → Int64) (drawn : ByteString × ByteString)
    (source recipient remainder : Wallet) (ids : List ByteString) (newId : ByteString) (m : Molecule)
    (hnodup : (source.tokenUnits.map (·.id)).Nodup) (hbalance : stoll source.balance = .ok source.tokenUnits.length) :
    FusesOrRefuses clock drawn source recipient remainder ids newId m ↔
      ¬ Accepts source ids newId ∨ ids.Nodup ∧ Writable (source.tokenUnits.filter fun u => u.id ∉ ids) := by
  have hother : (source.tokenUnits.filter fun u => u.id ∉ ids) = remaining (·.id) source.tokenUnits [ids] :=
    List.filter_congr fun u _ => by simp
  rw [hother]
  by_cases h : Accepts source ids newId
  · constructor
    · exact fun hfuses => .inr (nodup_of_fuses hnodup hbalance h hfuses)
    · rintro (hrefused | ⟨hids, hkept⟩)
      · exact absurd h hrefused
      · exact fuses_of_nodup hnodup hbalance h clock drawn recipient remainder m hids hkept
  · exact iff_of_true (.inl (initTokenFusion_refuses clock drawn recipient remainder m h)) (.inl h)

section Example

/-- The units a, b and c. -/
def stacked : Wallet := { Wallet.threeUnits with balance := ascii "3" }

theorem stacked_nodup : (stacked.tokenUnits.map (·.id)).Nodup := Wallet.threeUnits_nodup

theorem stacked_balance : stoll stacked.balance = .ok stacked.tokenUnits.length :=
  stoll_ofInt (i := 3) (by norm_num) (by norm_num)

theorem initTokenFusion_conserves_iff_two :
    FusesOrRefuses (fun _ => 0) ([], []) stacked stacked stacked [ascii "c", ascii "a"] (ascii "n") { createdAt := 0 } ↔
      ¬ Accepts stacked [ascii "c", ascii "a"] (ascii "n") ∨ [ascii "c", ascii "a"].Nodup ∧
        Writable (stacked.tokenUnits.filter fun u => u.id ∉ [ascii "c", ascii "a"]) :=
  initTokenFusion_conserves_iff _ _ stacked stacked stacked _ _ _ stacked_nodup stacked_balance

/-- The unit a named twice: two units are counted, one is sent. -/
theorem initTokenFusion_fuses_twice :
    ¬ FusesOrRefuses (fun _ => 0) ([], []) stacked stacked stacked [ascii "a", ascii "a"] (ascii "n") { createdAt := 0 } := by
  have haccepts : Accepts stacked [ascii "a", ascii "a"] (ascii "n") := by
    refine ⟨by decide, by decide, by decide, by decide, ?_, 3, stacked_balance⟩
    decide
  intro h
  obtain ⟨hnodup, -⟩ := nodup_of_fuses stacked_nodup stacked_balance haccepts h
  exact (List.nodup_cons.mp hnodup).1 List.mem_cons_self

end Example

end Conservation

end Molecule

end KnishIO
