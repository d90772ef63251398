import Mathlib.Data.List.Dedup
import Mathlib.Data.List.Forall2
import Mathlib.Data.List.Perm.Basic

/-- Every member of the first list has its partner in the second. -/
theorem List.Forall₂.exists_of_mem {α β : Type} {R : α → β → Prop} {xs : List α} {ys : List β} (h : List.Forall₂ R xs ys)
    {x : α} (hx : x ∈ xs) : ∃ y ∈ ys, R x y := by
  induction h with
  | nil => cases hx
  | cons hhead _ ih =>
    obtain rfl | hx := List.mem_cons.mp hx
    · exact ⟨_, List.mem_cons_self, hhead⟩
    · obtain ⟨y, hy, hR⟩ := ih hx
      exact ⟨y, List.mem_cons_of_mem _ hy, hR⟩

theorem List.forall₂_eq_iff_map_eq {α β γ : Type} {f : α → γ} {g : β → γ} {xs : List α} {ys : List β} :
    List.Forall₂ (fun x y => f x = g y) xs ys ↔ xs.map f = ys.map g := by
  rw [← List.forall₂_eq_eq_eq, List.forall₂_map_left_iff, List.forall₂_map_right_iff]

namespace Selection

/-- No item is named on two lists. -/
def Apart {α κ : Type} (key : α → κ) (items : List α) (lists : List (List κ)) : Prop :=
  lists.Pairwise fun xs ys => ∀ x ∈ items, key x ∈ xs → key x ∉ ys

theorem apart_of_disjoint {α κ : Type} {key : α → κ} {items : List α} {lists : List (List κ)}
    (h : lists.Pairwise List.Disjoint) : Apart key items lists :=
  h.imp fun hdisjoint _ _ hx hy => hdisjoint hx hy

section Select

variable {α κ : Type} [DecidableEq κ] {key : α → κ} {items : List α} {keys : List κ} {lists : List (List κ)}

/-- The items whose key is listed. -/
def select (key : α → κ) (items : List α) (keys : List κ) : List α := items.filter fun x => key x ∈ keys

/-- The items whose key is on none of the lists. -/
def remaining (key : α → κ) (items : List α) (lists : List (List κ)) : List α :=
  items.filter fun x => ∀ keys ∈ lists, key x ∉ keys

theorem mem_keys_select {k : κ} : k ∈ (select key items keys).map key ↔ k ∈ items.map key ∧ k ∈ keys := by
  simp only [select, List.mem_map, List.mem_filter, decide_eq_true_eq]
  constructor
  · rintro ⟨x, ⟨hx, hkey⟩, rfl⟩
    exact ⟨⟨x, hx, rfl⟩, hkey⟩
  · rintro ⟨⟨x, hx, rfl⟩, hkey⟩
    exact ⟨x, ⟨hx, hkey⟩, rfl⟩

/-- What is handed out for lists that are apart, and what is left, are the items. -/
theorem select_remaining_perm (hapart : Apart key items lists) :
    ((lists.map (select key items)).flatten ++ remaining key items lists).Perm items := by
  induction lists generalizing items with
  | nil => simp [remaining]
  | cons keys lists ih =>
    obtain ⟨hfirst, hrest⟩ := List.pairwise_cons.mp hapart
    -- what the first list leaves
    let left := items.filter fun x => !decide (key x ∈ keys)
    have hselect : lists.map (select key items) = lists.map (select key left) := by
      refine List.map_congr_left fun ks hks => ?_
      simp only [select, left, List.filter_filter]
      refine List.filter_congr fun x hx => ?_
      have hnot : key x ∈ ks → key x ∉ keys := fun h h' => hfirst ks hks x hx h' h
      by_cases h : key x ∈ ks <;> simp [h, hnot]
    have hremaining : remaining key items (keys :: lists) = remaining key left lists := by
      simp only [remaining, left, List.filter_filter]
      refine List.filter_congr fun x _ => ?_
      rw [Bool.and_comm]
      simp
    have hleft : Apart key left lists := hrest.imp fun h x hx => h x (List.mem_of_mem_filter hx)
    rw [List.map_cons, List.flatten_cons, List.append_assoc, hselect, hremaining]
    exact ((ih hleft).append_left _).trans (List.filter_append_perm _ _)

/-- Where the items are handed out and left once each, the lists are apart. -/
theorem apart_of_perm (hnodup : items.Nodup)
    (h : ((lists.map (select key items)).flatten ++ remaining key items lists).Perm items) : Apart key items lists := by
  have hflatten := (h.nodup_iff.mpr hnodup).of_append_left
  have hpairwise := List.pairwise_map.mp (List.nodup_flatten.mp hflatten).2
  refine hpairwise.imp fun hdisjoint x hx hfirst hsecond => ?_
  exact hdisjoint (List.mem_filter.mpr ⟨hx, decide_eq_true hfirst⟩) (List.mem_filter.mpr ⟨hx, decide_eq_true hsecond⟩)

theorem sublist_select : (select key items keys).Sublist items := List.filter_sublist

theorem sublist_remaining : (remaining key items lists).Sublist items := List.filter_sublist

end Select

/-- Items handed out for lists of keys, and items kept: every list gets the items that it names, and every item is
handed out or kept once. -/
structure HandsOut {α κ : Type} (key : α → κ) (items : List α) (lists : List (List κ)) (sent : List (List α)) (kept : List α) :
    Prop where
  requested : List.Forall₂ (fun keys given => ∀ k, k ∈ given.map key ↔ k ∈ keys) lists sent
  whole : (sent.flatten ++ kept).Perm items

section HandsOut

variable {α κ : Type} {key : α → κ} {items kept : List α} {lists : List (List κ)} {sent : List (List α)}

theorem handsOut_select [DecidableEq κ] (hknown : ∀ keys ∈ lists, keys ⊆ items.map key)
    (hdisjoint : lists.Pairwise List.Disjoint) :
    HandsOut key items lists (lists.map (select key items)) (remaining key items lists) := by
  refine ⟨?_, select_remaining_perm (apart_of_disjoint hdisjoint)⟩
  rw [List.forall₂_map_right_iff, List.forall₂_same]
  intro keys hkeys k
  rw [mem_keys_select]
  exact ⟨And.right, fun hk => ⟨hknown keys hkeys hk, hk⟩⟩

namespace HandsOut

theorem subset (h : HandsOut key items lists sent kept) : ∀ given ∈ sent, given ⊆ items := by
  intro given hgiven x hx
  exact h.whole.subset (List.mem_append_left _ (List.mem_flatten.mpr ⟨given, hgiven, hx⟩))

theorem known (h : HandsOut key items lists sent kept) : ∀ keys ∈ lists, keys ⊆ items.map key := by
  have hsubset := h.subset
  have hrequested := h.requested
  clear h
  induction hrequested with
  | nil => simp
  | cons hhead _ ih =>
    obtain ⟨hfirst, hrest⟩ := List.forall_mem_cons.mp hsubset
    exact List.forall_mem_cons.mpr ⟨fun k hk => List.map_subset key hfirst ((hhead k).mpr hk), ih hrest⟩

variable (hnodup : (items.map key).Nodup)

include hnodup

theorem nodup_flatten (h : HandsOut key items lists sent kept) : ((sent.map (List.map key)).flatten).Nodup := by
  have hwhole : ((sent.flatten ++ kept).map key).Nodup := (h.whole.map key).nodup_iff.mpr hnodup
  rw [List.map_append, List.map_flatten] at hwhole
  exact hwhole.of_append_left

theorem disjoint (h : HandsOut key items lists sent kept) : lists.Pairwise List.Disjoint := by
  have hpairwise := (List.nodup_flatten.mp (h.nodup_flatten hnodup)).2
  have hrequested := h.requested
  clear h
  induction hrequested with
  | nil => exact .nil
  | @cons keys given lists sent hhead htail ih =>
    rw [List.map_cons] at hpairwise
    obtain ⟨hfirst, hrest⟩ := List.pairwise_cons.mp hpairwise
    refine List.pairwise_cons.mpr ⟨fun ks hks k hk hk' => ?_, ih hrest⟩
    obtain ⟨given', hgiven', hsame⟩ := htail.exists_of_mem hks
    exact hfirst _ (List.mem_map_of_mem hgiven') ((hhead k).mpr hk) ((hsame k).mpr hk')

/-- Every list gets as many items as it names. -/
theorem counted [DecidableEq κ] (h : HandsOut key items lists sent kept) :
    List.Forall₂ (fun keys given => given.length = keys.dedup.length) lists sent := by
  have hnodups := (List.nodup_flatten.mp (h.nodup_flatten hnodup)).1
  have hrequested := h.requested
  clear h
  induction hrequested with
  | nil => exact .nil
  | @cons keys given lists sent hhead htail ih =>
    rw [List.map_cons] at hnodups
    obtain ⟨hfirst, hrest⟩ := List.forall_mem_cons.mp hnodups
    have hperm : (given.map key).Perm keys.dedup :=
      (List.perm_ext_iff_of_nodup hfirst keys.nodup_dedup).mpr fun k => (hhead k).trans List.mem_dedup.symm
    refine .cons ?_ (ih hrest)
    rw [← hperm.length_eq, List.length_map]

end HandsOut

end HandsOut

section Pick

variable {α κ : Type} [DecidableEq κ] {key : α → κ} {items : List α} {keys : List κ}

/-- The items that keys name, in the order of the keys. -/
def pick (key : α → κ) (items : List α) (keys : List κ) : List α :=
  keys.filterMap fun k => items.find? fun x => key x = k

theorem pick_cons_of_find {k : κ} {x : α} (h : (items.find? fun x => key x = k) = some x) :
    pick key items (k :: keys) = x :: pick key items keys :=
  List.filterMap_cons_some h

theorem map_key_pick (hknown : keys ⊆ items.map key) : (pick key items keys).map key = keys := by
  induction keys with
  | nil => rfl
  | cons k keys ih =>
    obtain ⟨hk, hkeys⟩ := List.cons_subset.mp hknown
    obtain ⟨x, hx, hkey⟩ := List.mem_map.mp hk
    have hfound : (items.find? fun x => key x = k).isSome := List.find?_isSome.mpr ⟨x, hx, by simpa using hkey⟩
    obtain ⟨y, hy⟩ := Option.isSome_iff_exists.mp hfound
    rw [pick_cons_of_find hy, List.map_cons, ih hkeys]
    simpa using List.find?_some hy

theorem length_pick (hknown : keys ⊆ items.map key) : (pick key items keys).length = keys.length := by
  rw [← List.length_map (f := key), map_key_pick hknown]

theorem pick_subset : pick key items keys ⊆ items := by
  intro x hx
  obtain ⟨k, -, hfound⟩ := List.mem_filterMap.mp hx
  exact List.mem_of_find?_eq_some hfound

variable (hnodup : (items.map key).Nodup) (hknown : keys ⊆ items.map key)

include hnodup hknown

theorem mem_pick {x : α} : x ∈ pick key items keys ↔ x ∈ items ∧ key x ∈ keys := by
  constructor
  · intro hx
    refine ⟨pick_subset hx, ?_⟩
    rw [← map_key_pick hknown]
    exact List.mem_map_of_mem hx
  · rintro ⟨hx, hkey⟩
    rw [← map_key_pick hknown] at hkey
    obtain ⟨y, hy, hsame⟩ := List.mem_map.mp hkey
    rwa [← List.inj_on_of_nodup_map hnodup (pick_subset hy) hx hsame]

theorem select_subset_pick : select key items keys ⊆ pick key items keys := by
  intro x hx
  rw [mem_pick hnodup hknown]
  simpa [select] using hx

/-- Keys without repetition pick what they select. -/
theorem select_perm_pick (hkeys : keys.Nodup) : (select key items keys).Perm (pick key items keys) := by
  have hpick : ((pick key items keys).map key).Nodup := by rwa [map_key_pick hknown]
  have hselect : (select key items keys).Nodup := (hnodup.of_map key).sublist sublist_select
  refine (List.perm_ext_iff_of_nodup hselect (hpick.of_map key)).mpr fun x => ?_
  rw [mem_pick hnodup hknown]
  simp [select]

/-- A selection counts every key once. -/
theorem length_select : (select key items keys).length = keys.dedup.length := by
  have hselect : ((select key items keys).map key).Nodup := hnodup.sublist (sublist_select.map key)
  have hperm : ((select key items keys).map key).Perm keys.dedup :=
    (List.perm_ext_iff_of_nodup hselect keys.nodup_dedup).mpr fun k => by
      rw [mem_keys_select, List.mem_dedup]
      exact ⟨And.right, fun hk => ⟨hknown hk, hk⟩⟩
  rw [← hperm.length_eq, List.length_map]

/-- As many as the keys only where no key is repeated. -/
theorem nodup_of_length_select (h : (select key items keys).length = keys.length) : keys.Nodup := by
  rw [length_select hnodup hknown] at h
  exact List.dedup_eq_self.mp ((List.dedup_sublist keys).eq_of_length h)

omit hnodup hknown in
theorem length_select_add_remaining : (select key items keys).length + (remaining key items [keys]).length = items.length := by
  have hremaining : remaining key items [keys] = items.filter fun x => !decide (key x ∈ keys) := by
    refine List.filter_congr fun x _ => ?_
    simp
  rw [hremaining]
  exact (List.length_eq_length_filter_add _).symm

end Pick

end Selection
