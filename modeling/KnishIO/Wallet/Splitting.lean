import KnishIO.Wallet
import KnishIO.Library.Selection

open ByteString

namespace KnishIO

namespace Wallet

section Selections

theorem select_eq (units : List TokenUnit) (ids : List ByteString) :
    Selection.select (·.id) units ids = units.filter (idInList ids) := by
  refine List.filter_congr fun u _ => ?_
  rw [Bool.eq_iff_iff]
  simp [idInList]

theorem remaining_eq (units : List TokenUnit) (lists : List (List ByteString)) :
    Selection.remaining (·.id) units lists = units.filter fun u => !(lists.any fun ids => idInList ids u) := by
  refine List.filter_congr fun u _ => ?_
  rw [Bool.eq_iff_iff]
  simp [idInList]

/-- Splitting gives out the units that are named; what is kept goes to the remainder, or nothing does where no unit
is named. -/
theorem splitUnits_eq (w : Wallet) (units : List ByteString) (remainder recipient : Wallet)
    (hrecipient : recipient.tokenUnits = []) (hremainder : remainder.tokenUnits = []) :
    ((w.splitUnits units remainder (some recipient)).2.2.getD recipient).tokenUnits =
        Selection.select (·.id) w.tokenUnits units ∧
      (w.splitUnits units remainder (some recipient)).2.1.tokenUnits =
        if units = [] then [] else Selection.remaining (·.id) w.tokenUnits [units] := by
  unfold splitUnits
  split
  next hnone =>
    subst hnone
    simp [hrecipient, hremainder, Selection.select]
  next hsome =>
    rw [select_eq, remaining_eq]
    refine ⟨rfl, ?_⟩
    simp

theorem splitUnits_burn (w : Wallet) (units : List ByteString) (remainder : Wallet) (hremainder : remainder.tokenUnits = []) :
    ((units ≠ [] ∨ w.tokenUnits = []) → (w.splitUnits units remainder none).1.tokenUnits =
        Selection.select (·.id) w.tokenUnits units) ∧
      (w.splitUnits units remainder none).2.1.tokenUnits =
        if units = [] then [] else Selection.remaining (·.id) w.tokenUnits [units] := by
  unfold splitUnits
  split
  next hnone =>
    subst hnone
    refine ⟨fun h => ?_, hremainder⟩
    obtain hne | hnil := h
    · exact absurd rfl hne
    · rw [hnil]
      rfl
  next hsome =>
    rw [select_eq, remaining_eq]
    refine ⟨fun _ => rfl, ?_⟩
    simp

theorem splitUnitsMulti_eq (w : Wallet) {lists : List (List ByteString)} {recipients : List Wallet} (remainder : Wallet)
    (hlength : recipients.length = lists.length) (hrecipients : ∀ r ∈ recipients, r.tokenUnits = [])
    (hremainder : remainder.tokenUnits = []) :
    (w.splitUnitsMulti lists recipients remainder).2.1.map (·.tokenUnits) =
        lists.map (Selection.select (·.id) w.tokenUnits) ∧
      (w.splitUnitsMulti lists recipients remainder).2.2.tokenUnits =
        if (∀ ids ∈ lists, ids = []) then [] else Selection.remaining (·.id) w.tokenUnits lists := by
  unfold splitUnitsMulti
  split
  next hnone =>
    have hall : ∀ ids ∈ lists, ids = [] := by simpa using hnone
    rw [if_pos hall]
    refine ⟨?_, hremainder⟩
    refine List.ext_getElem (by simpa using hlength) fun i hi hj => ?_
    rw [List.getElem_map, List.getElem_map, hrecipients _ (List.getElem_mem _), hall _ (List.getElem_mem _)]
    simp [Selection.select]
  next hsome =>
    have hnot : ¬ ∀ ids ∈ lists, ids = [] := by simpa using hsome
    rw [if_neg hnot]
    constructor
    · refine List.ext_getElem (by simpa using hlength) fun i hi hj => ?_
      have hlt : i < lists.length := by simpa using hj
      simp [select_eq, hlt]
    · rw [remaining_eq]

end Selections

section Partition

variable {w remainder : Wallet} {lists : List (List ByteString)} {recipients : List Wallet}

/-- With some id to send, every recipient gets the units on its list, the remainder those on no list, and the source
those on some list. -/
theorem splitUnitsMulti_sent (w : Wallet) (remainder : Wallet) (hlength : recipients.length = lists.length)
    (hsome : ∃ ids ∈ lists, ids ≠ []) :
    (w.splitUnitsMulti lists recipients remainder).2.1.map (·.tokenUnits) =
        lists.map (Selection.select (·.id) w.tokenUnits) ∧
      (w.splitUnitsMulti lists recipients remainder).2.2.tokenUnits = Selection.remaining (·.id) w.tokenUnits lists ∧
      (w.splitUnitsMulti lists recipients remainder).1.tokenUnits =
        w.tokenUnits.filter fun u => lists.any fun ids => idInList ids u := by
  have hnot : ¬ lists.all (· = []) = true := by
    obtain ⟨ids, hids, hne⟩ := hsome
    intro hall
    exact hne (by simpa using List.all_eq_true.mp hall ids hids)
  unfold splitUnitsMulti
  rw [if_neg hnot]
  refine ⟨?_, (remaining_eq w.tokenUnits lists).symm, rfl⟩
  refine List.ext_getElem (by simpa using hlength) fun i hi hj => ?_
  have hlt : i < lists.length := by simpa using hj
  simp [select_eq, hlt]

/-- Splitting over recipients is a partition: every unit of the source is on one of the lists of the recipients and
of the remainder, all in the source's order, and the source keeps what some recipient has; one recipient is
`splitUnits`. -/
structure Partitions (w : Wallet) (lists : List (List ByteString)) (recipients : List Wallet) (remainder : Wallet) : Prop where
  once : (((w.splitUnitsMulti lists recipients remainder).2.1.map (·.tokenUnits)).flatten ++
    (w.splitUnitsMulti lists recipients remainder).2.2.tokenUnits).Perm w.tokenUnits
  ordered : ∀ r ∈ (w.splitUnitsMulti lists recipients remainder).2.2 :: (w.splitUnitsMulti lists recipients remainder).2.1,
    r.tokenUnits.Sublist w.tokenUnits
  source : ∀ u, u ∈ (w.splitUnitsMulti lists recipients remainder).1.tokenUnits ↔
    ∃ r ∈ (w.splitUnitsMulti lists recipients remainder).2.1, u ∈ r.tokenUnits
  single : ∀ ids r, lists = [ids] → recipients = [r] →
    w.splitUnitsMulti lists recipients remainder =
      ((w.splitUnits ids remainder (some r)).1, (w.splitUnits ids remainder (some r)).2.2.toList,
        (w.splitUnits ids remainder (some r)).2.1)

theorem splitUnitsMulti_single (w : Wallet) (ids : List ByteString) (r remainder : Wallet) :
    w.splitUnitsMulti [ids] [r] remainder =
      ((w.splitUnits ids remainder (some r)).1, (w.splitUnits ids remainder (some r)).2.2.toList,
        (w.splitUnits ids remainder (some r)).2.1) := by
  unfold splitUnitsMulti splitUnits
  by_cases hids : ids = []
  · simp [hids]
  · simp [hids]

/-- Splitting is a partition if and only if no unit of the source is named for two recipients. -/
theorem splitUnitsMulti_partitions_iff (w : Wallet) (lists : List (List ByteString)) (recipients : List Wallet)
    (remainder : Wallet) (hnodup : (w.tokenUnits.map (·.id)).Nodup) (hlength : recipients.length = lists.length)
    (hsome : ∃ ids ∈ lists, ids ≠ []) :
    Partitions w lists recipients remainder ↔
      lists.Pairwise fun ids others => ∀ u ∈ w.tokenUnits, u.id ∈ ids → u.id ∉ others := by
  obtain ⟨hsent, hkept, hsource⟩ := splitUnitsMulti_sent w remainder hlength hsome
  constructor
  · intro h
    have honce := h.once
    rw [hsent, hkept] at honce
    exact Selection.apart_of_perm hnodup.of_map honce
  · intro hapart
    refine ⟨?_, fun r hr => ?_, fun u => ?_, ?_⟩
    · rw [hsent, hkept]
      exact Selection.select_remaining_perm hapart
    · obtain rfl | hr := List.mem_cons.mp hr
      · rw [hkept]
        exact Selection.sublist_remaining
      · have hunits := List.mem_map_of_mem (f := (·.tokenUnits)) hr
        rw [hsent] at hunits
        obtain ⟨ids, -, hids⟩ := List.mem_map.mp hunits
        rw [← hids]
        exact Selection.sublist_select
    · have hmem : (∃ r ∈ (w.splitUnitsMulti lists recipients remainder).2.1, u ∈ r.tokenUnits) ↔
          ∃ ids ∈ lists, u ∈ Selection.select (·.id) w.tokenUnits ids := by
        have hunits (rs : List Wallet) : (∃ r ∈ rs, u ∈ r.tokenUnits) ↔ ∃ units ∈ rs.map (·.tokenUnits), u ∈ units := by simp
        rw [hunits, hsent]
        simp
      rw [hmem, hsource]
      simp only [Selection.select, idInList, List.mem_filter, List.any_eq_true, decide_eq_true_eq]
      constructor
      · rintro ⟨hu, ids, hids, hmem⟩
        exact ⟨ids, hids, hu, hmem⟩
      · rintro ⟨ids, hids, hu, hmem⟩
        exact ⟨hu, ids, hids, hmem⟩
    · rintro ids r rfl rfl
      exact splitUnitsMulti_single w ids r remainder

section Example

/-- A wallet of the units a, b and c. -/
def threeUnits : Wallet :=
  { position := [], token := ascii "T", key := [], address := [], bundle := [], mlkemPublicKey := [], mlkemParameterSet := 1024,
    otsVersion := 1
    tokenUnits := [⟨ascii "a", ascii "U", []⟩, ⟨ascii "b", ascii "U", []⟩, ⟨ascii "c", ascii "U", []⟩] }

theorem threeUnits_nodup : (threeUnits.tokenUnits.map (·.id)).Nodup := by decide

theorem splitUnitsMulti_partitions_iff_two :
    Partitions threeUnits [[ascii "a"], [ascii "b", ascii "x"]] [threeUnits, threeUnits] threeUnits ↔
      [[ascii "a"], [ascii "b", ascii "x"]].Pairwise fun ids others =>
        ∀ u ∈ threeUnits.tokenUnits, u.id ∈ ids → u.id ∉ others :=
  splitUnitsMulti_partitions_iff threeUnits _ [threeUnits, threeUnits] threeUnits threeUnits_nodup rfl
    ⟨[ascii "a"], by decide, by decide⟩

/-- A unit that is named for two recipients is handed to both. -/
theorem splitUnitsMulti_hands_out_twice :
    ¬ Partitions threeUnits [[ascii "a"], [ascii "a", ascii "b"]] [threeUnits, threeUnits] threeUnits := by
  intro h
  have hlength := h.once.length_eq
  revert hlength
  decide

end Example

end Partition

end Wallet

end KnishIO
