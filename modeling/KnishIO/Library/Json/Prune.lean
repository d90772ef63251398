import KnishIO.Library.Json.Sound

open ByteString

namespace Json

section Keyed

mutual

/-- Every object of the value is a map: its keys stand once, in byte order. -/
def Keyed : Json → Prop
  | .arr items => KeyedItems items
  | .obj ms => Sorted ms ∧ KeyedMembers ms
  | _ => True

def KeyedItems : List Json → Prop
  | [] => True
  | j :: rest => Keyed j ∧ KeyedItems rest

def KeyedMembers : List (ByteString × Json) → Prop
  | [] => True
  | (_, v) :: rest => Keyed v ∧ KeyedMembers rest

end

theorem keyedItems_iff (items : List Json) : KeyedItems items ↔ ∀ j ∈ items, Keyed j := by
  induction items with
  | nil => simp [KeyedItems]
  | cons j items ih => simp [KeyedItems, ih]

theorem keyedMembers_iff (ms : List (ByteString × Json)) : KeyedMembers ms ↔ ∀ m ∈ ms, Keyed m.2 := by
  induction ms with
  | nil => simp [KeyedMembers]
  | cons m ms ih => simp [KeyedMembers, ih]

theorem mem_of_lookup {key : ByteString} {value : Json} {ms : List (ByteString × Json)} (h : lookup key ms = some value) :
    (key, value) ∈ ms := by
  induction ms with
  | nil => cases h
  | cons m ms ih =>
    obtain ⟨k, v⟩ := m
    rw [lookup] at h
    split_ifs at h with heq
    · obtain rfl := Option.some.inj h
      exact heq ▸ List.mem_cons_self
    · exact List.mem_cons_of_mem _ (ih h)

theorem Keyed.find? {j value : Json} {key : ByteString} (hj : j.Keyed) (h : j.find? key = some value) : value.Keyed := by
  cases j with
  | obj ms => exact (keyedMembers_iff ms).mp hj.2 _ (mem_of_lookup h)
  | _ => cases h

mutual

theorem Valid.keyed {F : FloatText} (j : Json) (hj : j.Valid F) : j.Keyed := by
  match j, hj with
  | .arr items, hj => exact keyedItems_of_valid items hj
  | .obj ms, hj => exact ⟨hj.1, keyedMembers_of_valid ms hj.2⟩
  | .null, _ | .bool _, _ | .int _, _ | .float _, _ | .str _, _ => trivial

theorem keyedItems_of_valid {F : FloatText} (items : List Json) (h : ValidItems F items) : KeyedItems items := by
  match items, h with
  | [], _ => trivial
  | j :: rest, h => exact ⟨Valid.keyed j h.1, keyedItems_of_valid rest h.2⟩

theorem keyedMembers_of_valid {F : FloatText} (ms : List (ByteString × Json)) (h : ValidMembers F ms) : KeyedMembers ms := by
  match ms, h with
  | [], _ => trivial
  | (_, v) :: rest, h => exact ⟨Valid.keyed v h.2.1, keyedMembers_of_valid rest h.2.2⟩

end

end Keyed

section Prune

variable {absent : ByteString → Json → Bool}

mutual

/-- The value without the members that a test takes for absent. -/
def prune (absent : ByteString → Json → Bool) : Json → Json
  | .arr items => .arr (pruneItems absent items)
  | .obj ms => .obj (pruneMembers absent ms)
  | scalar => scalar

def pruneItems (absent : ByteString → Json → Bool) : List Json → List Json
  | [] => []
  | j :: rest => prune absent j :: pruneItems absent rest

def pruneMembers (absent : ByteString → Json → Bool) : List (ByteString × Json) → List (ByteString × Json)
  | [] => []
  | (key, value) :: rest =>
    if absent key value then pruneMembers absent rest else (key, prune absent value) :: pruneMembers absent rest

end

@[simp] theorem pruneItems_eq (items : List Json) : pruneItems absent items = items.map (prune absent) := by
  induction items with
  | nil => rfl
  | cons j items ih => rw [pruneItems, ih, List.map_cons]

@[simp] theorem string?_prune (j : Json) : (j.prune absent).string? = j.string? := by
  cases j <;> rfl

@[simp] theorem isNull_prune (j : Json) : (j.prune absent).isNull = j.isNull := by
  cases j <;> rfl

@[simp] theorem isObject_prune (j : Json) : (j.prune absent).isObject = j.isObject := by
  cases j <;> rfl

theorem lookup_of_forall_lt {key : ByteString} {ms : List (ByteString × Json)} (h : ∀ m ∈ ms, key < m.1) :
    lookup key ms = none := by
  cases hlookup : lookup key ms with
  | none => rfl
  | some value => exact absurd (h _ (mem_of_lookup hlookup)) (List.lt_irrefl _)

theorem lookup_pruneMembers {ms : List (ByteString × Json)} (hs : Sorted ms) (key : ByteString) :
    lookup key (pruneMembers absent ms) =
      (lookup key ms).bind fun value => if absent key value then none else some (prune absent value) := by
  induction ms with
  | nil => rfl
  | cons m ms ih =>
    obtain ⟨k, v⟩ := m
    obtain ⟨hhead, htail⟩ := List.pairwise_cons.mp hs
    by_cases heq : k = key
    · subst heq
      rw [pruneMembers, lookup, if_pos rfl, Option.bind_some]
      split_ifs with habsent
      · -- no later member has this key
        rw [ih htail, lookup_of_forall_lt hhead]
        rfl
      · rw [lookup, if_pos rfl]
    · rw [pruneMembers, lookup, if_neg heq, ← ih htail]
      split_ifs with habsent
      · rfl
      · rw [lookup, if_neg heq]

theorem find?_prune {j : Json} (hj : j.Keyed) (key : ByteString) :
    (j.prune absent).find? key = (j.find? key).bind fun value =>
      if absent key value then none else some (prune absent value) := by
  cases j with
  | obj ms => exact lookup_pruneMembers hj.1 key
  | _ => rfl

/-- As long as no string is taken for absent, strings are read alike. -/
theorem stringAt_prune (hstrings : ∀ key s, absent key (.str s) = false) {j : Json} (hj : j.Keyed) (key : String) :
    (j.prune absent).stringAt key = j.stringAt key := by
  rw [stringAt, find?_prune hj, stringAt]
  cases j.find? (ascii key) with
  | none => rfl
  | some value =>
    rw [Option.bind_some, Option.bind_some]
    split_ifs with habsent
    · cases value with
      | str s => rw [hstrings] at habsent; cases habsent
      | _ => rfl
    · exact string?_prune value

theorem strings_pruneMembers (hstrings : ∀ key s, absent key (.str s) = false) (ms : List (ByteString × Json)) :
    ((pruneMembers absent ms).filterMap fun m => m.2.string?.map fun s => (m.1, s)) =
      ms.filterMap fun m => m.2.string?.map fun s => (m.1, s) := by
  induction ms with
  | nil => rfl
  | cons m ms ih =>
    obtain ⟨key, value⟩ := m
    rw [pruneMembers]
    split_ifs with habsent
    · cases value with
      | str s => rw [hstrings] at habsent; cases habsent
      | _ => exact ih
    · rw [List.filterMap_cons, List.filterMap_cons, string?_prune, ih]

end Prune

end Json
