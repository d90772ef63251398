import KnishIO.Library.ByteString

theorem pairwise_keys_nil (β : Type) : ([] : List (ByteString × β)).Pairwise fun a b => a.1 < b.1 := .nil

/-- `std::map` with string keys: the entries stand in byte order of the keys and every key stands once. -/
structure StdMap (β : Type) where
  entries : List (ByteString × β) := []
  sorted : entries.Pairwise (fun a b => a.1 < b.1) := by exact pairwise_keys_nil _

namespace StdMap

variable {β : Type}

def find? (m : StdMap β) (key : ByteString) : Option β :=
  (m.entries.find? fun e => e.1 = key).map Prod.snd

def contains (m : StdMap β) (key : ByteString) : Bool := (m.find? key).isSome

/-- `operator[]` followed by an assignment. -/
def set (m : StdMap β) (key : ByteString) (value : β) : StdMap β where
  entries := (m.entries.filter fun e => e.1 < key) ++ (key, value) :: m.entries.filter fun e => key < e.1
  sorted := by
    refine List.pairwise_append.mpr ⟨m.sorted.filter _, List.pairwise_cons.mpr ⟨?_, m.sorted.filter _⟩, ?_⟩
    · intro e he
      simpa using (List.mem_filter.mp he).2
    · intro a ha b hb
      have hlow : a.1 < key := by simpa using (List.mem_filter.mp ha).2
      obtain rfl | hb := List.mem_cons.mp hb
      · exact hlow
      · exact List.lt_trans hlow (by simpa using (List.mem_filter.mp hb).2)

def erase (m : StdMap β) (key : ByteString) : StdMap β where
  entries := m.entries.filter fun e => e.1 ≠ key
  sorted := m.sorted.filter _

def keys (m : StdMap β) : List ByteString := m.entries.map Prod.fst

theorem find?_eq_some {m : StdMap β} {key : ByteString} {value : β} :
    m.find? key = some value ↔ (key, value) ∈ m.entries := by
  constructor
  · intro h
    obtain ⟨e, he, rfl⟩ := Option.map_eq_some_iff.mp h
    have hkey : e.1 = key := by simpa using List.find?_some he
    rw [← hkey]
    exact List.mem_of_find?_eq_some he
  · intro hmem
    have hsome : (m.entries.find? fun e => e.1 = key).isSome := by
      apply List.find?_isSome.mpr
      exact ⟨(key, value), hmem, by simp⟩
    obtain ⟨e, he⟩ := Option.isSome_iff_exists.mp hsome
    have hkey : e.1 = key := by simpa using List.find?_some he
    -- two entries of one key would have to be ordered
    have hsame : e = (key, value) := by
      by_contra hne
      obtain ⟨i, hi, hei⟩ := List.mem_iff_getElem.mp (List.mem_of_find?_eq_some he)
      obtain ⟨j, hj, hej⟩ := List.mem_iff_getElem.mp hmem
      have hordered := List.pairwise_iff_getElem.mp m.sorted
      obtain hlt | heq | hlt := Nat.lt_trichotomy i j
      · have := hordered i j hi hj hlt
        rw [hei, hej, hkey] at this
        exact List.lt_irrefl _ this
      · subst heq
        exact hne (hei.symm.trans hej)
      · have := hordered j i hj hi hlt
        rw [hei, hej, hkey] at this
        exact List.lt_irrefl _ this
    rw [find?, he, hsame]
    rfl

theorem mem_set {m : StdMap β} {key k : ByteString} {value v : β} :
    (k, v) ∈ (m.set key value).entries ↔ k = key ∧ v = value ∨ k ≠ key ∧ (k, v) ∈ m.entries := by
  simp only [set, List.mem_append, List.mem_filter, List.mem_cons, Prod.mk.injEq, decide_eq_true_eq]
  constructor
  · rintro (⟨hmem, hlt⟩ | ⟨rfl, rfl⟩ | ⟨hmem, hlt⟩)
    · exact .inr ⟨fun h => List.lt_irrefl _ (h ▸ hlt), hmem⟩
    · exact .inl ⟨rfl, rfl⟩
    · exact .inr ⟨fun h => List.lt_irrefl _ (h ▸ hlt), hmem⟩
  · rintro (h | ⟨hne, hmem⟩)
    · exact .inr (.inl h)
    · by_cases hlt : k < key
      · exact .inl ⟨hmem, hlt⟩
      · refine .inr (.inr ⟨hmem, ?_⟩)
        by_contra hnot
        exact hne (List.le_antisymm (List.not_lt.mp hnot) (List.not_lt.mp hlt))

theorem find?_set (m : StdMap β) (key k : ByteString) (value : β) :
    (m.set key value).find? k = if k = key then some value else m.find? k := by
  apply Option.ext
  intro v
  rw [find?_eq_some, mem_set]
  split
  next heq => simp [heq, eq_comm]
  next hne => simp [hne, find?_eq_some]

theorem find?_erase (m : StdMap β) (key k : ByteString) :
    (m.erase key).find? k = if k = key then none else m.find? k := by
  apply Option.ext
  intro v
  rw [find?_eq_some]
  split
  next heq => simp [erase, heq]
  next hne => simp [erase, hne, find?_eq_some]

theorem nodup_keys (m : StdMap β) : (m.entries.map Prod.fst).Nodup := by
  apply List.pairwise_map.mpr
  apply m.sorted.imp
  rintro a b hlt heq
  rw [heq] at hlt
  exact List.lt_irrefl _ hlt

/-- Two maps with the same value under every key are the same map. -/
theorem ext_find? {m m' : StdMap β} (h : ∀ key, m.find? key = m'.find? key) : m = m' := by
  have hnodup (m : StdMap β) : m.entries.Nodup := m.nodup_keys.of_map
  have hperm : m.entries.Perm m'.entries := by
    apply (List.perm_ext_iff_of_nodup (hnodup m) (hnodup m')).mpr
    rintro ⟨key, value⟩
    rw [← find?_eq_some, ← find?_eq_some, h key]
  have hentries : m.entries = m'.entries := by
    refine hperm.eq_of_pairwise (fun a b _ _ hab hba => ?_) m.sorted m'.sorted
    exact absurd hba (List.lt_asymm hab)
  cases m
  cases m'
  cases hentries
  rfl

theorem set_eq_self {m : StdMap β} {key : ByteString} {value : β} : m.set key value = m ↔ m.find? key = some value := by
  constructor
  · intro h
    rw [← h, find?_set, if_pos rfl]
  · intro h
    apply ext_find?
    intro k
    rw [find?_set]
    split
    next heq => rw [heq, h]
    next => rfl

theorem erase_eq_self {m : StdMap β} {key : ByteString} : m.erase key = m ↔ m.find? key = none := by
  constructor
  · intro h
    rw [← h, find?_erase, if_pos rfl]
  · intro h
    apply ext_find?
    intro k
    rw [find?_erase]
    split
    next heq => rw [heq, h]
    next => rfl

theorem isSome_of_rel {γ : Type} {R : β → γ → Prop} {a : Option β} {b : Option γ} (h : Option.Rel R a b) :
    a.isSome = b.isSome := by
  cases h <;> rfl

theorem mem_keys {m : StdMap β} {key : ByteString} : key ∈ m.keys ↔ m.contains key = true := by
  rw [contains, Option.isSome_iff_exists]
  simp only [keys, List.mem_map, find?_eq_some]
  constructor
  · rintro ⟨e, he, rfl⟩
    exact ⟨e.2, he⟩
  · rintro ⟨value, hvalue⟩
    exact ⟨_, hvalue, rfl⟩

/-- Maps with the same keys list them in the same order. -/
theorem keys_eq {γ : Type} {m : StdMap β} {m' : StdMap γ}
    (h : ∀ key, (m.find? key).isSome = (m'.find? key).isSome) : m.keys = m'.keys := by
  have hperm : m.keys.Perm m'.keys := by
    apply (List.perm_ext_iff_of_nodup m.nodup_keys m'.nodup_keys).mpr
    intro key
    change key ∈ m.keys ↔ key ∈ m'.keys
    rw [mem_keys, mem_keys, contains, contains, h key]
  have hsorted {δ : Type} (m : StdMap δ) : m.keys.Pairwise (· < ·) := List.pairwise_map.mpr m.sorted
  exact hperm.eq_of_pairwise (fun a b _ _ hab hba => absurd hba (List.lt_asymm hab)) (hsorted m) (hsorted m')

/-- Maps whose values are related under every key list related values in the same order. -/
theorem forall₂_entries {γ : Type} {m : StdMap β} {m' : StdMap γ} {R : ByteString → β → γ → Prop}
    (h : ∀ key, Option.Rel (R key) (m.find? key) (m'.find? key)) :
    List.Forall₂ (fun e e' => e.1 = e'.1 ∧ R e.1 e.2 e'.2) m.entries m'.entries := by
  have hkeys : m.entries.map Prod.fst = m'.entries.map Prod.fst := by
    apply keys_eq
    intro key
    exact isSome_of_rel (h key)
  have hrelated : ∀ e ∈ m.entries, ∀ e' ∈ m'.entries, e.1 = e'.1 → R e.1 e.2 e'.2 := by
    rintro ⟨key, value⟩ he ⟨key', value'⟩ he' rfl
    have hrel := h key
    rw [find?_eq_some.mpr he, find?_eq_some.mpr he'] at hrel
    cases hrel with
    | some hrel => exact hrel
  generalize m.entries = es at hkeys hrelated
  generalize m'.entries = es' at hkeys hrelated
  induction es generalizing es' with
  | nil =>
    obtain rfl := List.map_eq_nil_iff.mp hkeys.symm
    exact .nil
  | cons e es ih =>
    cases es' with
    | nil => cases hkeys
    | cons e' es' =>
      obtain ⟨hhead, htail⟩ := List.cons.inj hkeys
      refine .cons ⟨hhead, hrelated e (by simp) e' (by simp) hhead⟩ (ih es' htail fun a ha b hb => ?_)
      exact hrelated a (List.mem_cons_of_mem _ ha) b (List.mem_cons_of_mem _ hb)

/-- The entries whose key begins with `stem`, without it. -/
def strip (m : StdMap β) (stem : ByteString) : StdMap β where
  entries := (m.entries.filter fun e => stem.isPrefixOf e.1).map fun e => (e.1.drop stem.length, e.2)
  sorted := by
    apply List.pairwise_map.mpr
    apply (m.sorted.filter _).imp_of_mem
    rintro ⟨a, x⟩ ⟨b, y⟩ ha hb hlt
    obtain ⟨a, rfl⟩ := List.isPrefixOf_iff_prefix.mp (List.mem_filter.mp ha).2
    obtain ⟨b, rfl⟩ := List.isPrefixOf_iff_prefix.mp (List.mem_filter.mp hb).2
    simp only [List.drop_left] at hlt ⊢
    by_contra hnot
    obtain hlt' | rfl := List.le_iff_lt_or_eq.mp (List.not_lt.mp hnot)
    · exact List.lt_asymm hlt (List.append_left_lt hlt')
    · exact List.lt_irrefl _ hlt

theorem find?_strip (m : StdMap β) (stem key : ByteString) : (m.strip stem).find? key = m.find? (stem ++ key) := by
  apply Option.ext
  intro value
  rw [find?_eq_some, find?_eq_some]
  simp only [strip, List.mem_map, List.mem_filter, Prod.mk.injEq, Prod.exists]
  constructor
  · rintro ⟨k, v, ⟨hmem, hstem⟩, rfl, rfl⟩
    obtain ⟨k, rfl⟩ := List.isPrefixOf_iff_prefix.mp hstem
    rwa [List.drop_left]
  · intro hmem
    exact ⟨stem ++ key, value, ⟨hmem, by simp [List.isPrefixOf_iff_prefix]⟩, List.drop_left, rfl⟩

@[simp] theorem find?_empty (key : ByteString) : ({} : StdMap β).find? key = none := rfl

end StdMap
