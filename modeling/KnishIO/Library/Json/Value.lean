import KnishIO.Library.Decimal
import KnishIO.Library.Utf8

open ByteString

/-- A JSON value as `nlohmann::json` holds it: the members of an object stand in byte order of the keys and every
key stands once, and a floating-point number is held as the text it is written with. -/
inductive Json where
  | null
  | bool (b : Bool)
  | int (n : Int)
  | float (text : ByteString)
  | str (s : ByteString)
  | arr (items : List Json)
  | obj (members : List (ByteString × Json))

namespace Json

/-- `std::map::operator[]` followed by an assignment. -/
def insert (key : ByteString) (value : Json) : List (ByteString × Json) → List (ByteString × Json)
  | [] => [(key, value)]
  | (k, v) :: rest =>
    if key = k then (key, value) :: rest
    else if key < k then (key, value) :: (k, v) :: rest
    else (k, v) :: insert key value rest

/-- An object assigned member by member, in the order of the source. -/
def object (members : List (ByteString × Json)) : Json :=
  .obj (members.foldl (fun acc m => insert m.1 m.2 acc) [])

def lookup (key : ByteString) : List (ByteString × Json) → Option Json
  | [] => none
  | (k, v) :: rest => if k = key then some v else lookup key rest

/-- `find`: absent in every value that is not an object. -/
def find? (key : ByteString) : Json → Option Json
  | .obj members => lookup key members
  | _ => none

def contains (key : ByteString) (j : Json) : Bool := (j.find? key).isSome

def isNull : Json → Bool
  | .null => true
  | _ => false

def isObject : Json → Bool
  | .obj _ => true
  | _ => false

def isString : Json → Bool
  | .str _ => true
  | _ => false

/-- The string a value holds, when it holds one. -/
def string? : Json → Option ByteString
  | .str s => some s
  | _ => none

/-- The string a member holds, when there is one. -/
def stringAt (key : String) (j : Json) : Option ByteString := (j.find? (ascii key)).bind string?

/-- What a range-based `for` over the value visits: a scalar is visited once, null never. -/
def elements : Json → List Json
  | .null => []
  | .arr items => items
  | .obj members => members.map Prod.snd
  | scalar => [scalar]

/-- The members as `items()` lists them. -/
def members : Json → List (ByteString × Json)
  | .obj ms => ms
  | _ => []

@[simp] theorem string?_str (s : ByteString) : (Json.str s).string? = some s := rfl

@[simp] theorem elements_arr (items : List Json) : (Json.arr items).elements = items := rfl

theorem lookup_insert (key k : ByteString) (value : Json) (ms : List (ByteString × Json)) :
    lookup k (insert key value ms) = if key = k then some value else lookup k ms := by
  induction ms with
  | nil => rfl
  | cons m ms ih =>
    obtain ⟨k', v'⟩ := m
    simp only [insert]
    by_cases heq : key = k'
    · subst heq
      rw [if_pos rfl]
      by_cases h : key = k <;> simp [lookup, h]
    · rw [if_neg heq]
      by_cases hlt : key < k'
      · rw [if_pos hlt]
        rfl
      · rw [if_neg hlt, lookup, ih, lookup]
        by_cases h : key = k
        · subst h
          simp [Ne.symm heq]
        · simp [h]

/-- Inserting a key above every key present appends it. -/
theorem insert_of_forall_lt {key : ByteString} {value : Json} {ms : List (ByteString × Json)}
    (hlt : ∀ m ∈ ms, m.1 < key) : insert key value ms = ms ++ [(key, value)] := by
  induction ms with
  | nil => rfl
  | cons m ms ih =>
    obtain ⟨k, v⟩ := m
    have hk : k < key := hlt (k, v) (by simp)
    have hne : key ≠ k := fun h => absurd hk (h ▸ List.lt_irrefl _)
    have hnlt : ¬ key < k := fun h => List.lt_asymm h hk
    rw [insert, if_neg hne, if_neg hnlt, ih fun m hm => hlt m (by simp [hm]), List.cons_append]

/-- The keys stand in strictly increasing byte order. -/
def Sorted (ms : List (ByteString × Json)) : Prop := ms.Pairwise fun a b => a.1 < b.1

theorem mem_insert {key : ByteString} {value : Json} {ms : List (ByteString × Json)} {m : ByteString × Json}
    (hmem : m ∈ insert key value ms) : m = (key, value) ∨ m ∈ ms := by
  induction ms with
  | nil => simpa [insert] using hmem
  | cons m' ms ih =>
    obtain ⟨k, v⟩ := m'
    unfold insert at hmem
    split at hmem
    · rcases List.mem_cons.mp hmem with h | h
      · exact .inl h
      · exact .inr (by simp [h])
    · split at hmem
      · rcases List.mem_cons.mp hmem with h | h
        · exact .inl h
        · exact .inr h
      · rcases List.mem_cons.mp hmem with h | h
        · exact .inr (by simp [h])
        · rcases ih h with h | h
          · exact .inl h
          · exact .inr (by simp [h])

theorem sorted_insert {key : ByteString} {value : Json} {ms : List (ByteString × Json)} (hs : Sorted ms) :
    Sorted (insert key value ms) := by
  induction ms with
  | nil => simp [insert, Sorted]
  | cons m ms ih =>
    obtain ⟨k, v⟩ := m
    obtain ⟨hhead, htail⟩ := List.pairwise_cons.mp hs
    unfold insert
    split
    next heq =>
      subst heq
      exact List.pairwise_cons.mpr ⟨hhead, htail⟩
    next hne =>
      split
      next hlt =>
        refine List.pairwise_cons.mpr ⟨fun m hm => ?_, hs⟩
        rcases List.mem_cons.mp hm with rfl | hm
        · exact hlt
        · exact List.lt_trans hlt (hhead m hm)
      next hnlt =>
        refine List.pairwise_cons.mpr ⟨fun m hm => ?_, ih htail⟩
        rcases mem_insert hm with rfl | hm
        · by_contra hle
          exact hne (List.le_antisymm (List.not_lt.mp hle) (List.not_lt.mp hnlt))
        · exact hhead m hm

section Object

/-- The members that assigning one after another leaves. -/
def assign (members acc : List (ByteString × Json)) : List (ByteString × Json) :=
  members.foldl (fun acc m => insert m.1 m.2 acc) acc

theorem sorted_assign (members : List (ByteString × Json)) {acc : List (ByteString × Json)} (hs : Sorted acc) :
    Sorted (assign members acc) := by
  induction members generalizing acc with
  | nil => exact hs
  | cons m members ih => exact ih (sorted_insert hs)

theorem mem_assign {members acc : List (ByteString × Json)} {m : ByteString × Json} (hmem : m ∈ assign members acc) :
    m ∈ members ∨ m ∈ acc := by
  induction members generalizing acc with
  | nil => exact .inr hmem
  | cons m' members ih =>
    obtain h | h := ih hmem
    · exact .inl (List.mem_cons_of_mem _ h)
    · obtain rfl | h := mem_insert h
      · exact .inl List.mem_cons_self
      · exact .inr h

theorem lookup_assign_of_forall_ne {members acc : List (ByteString × Json)} {key : ByteString}
    (h : ∀ m ∈ members, m.1 ≠ key) : lookup key (assign members acc) = lookup key acc := by
  induction members generalizing acc with
  | nil => rfl
  | cons m members ih =>
    refine (ih fun m' hm' => h m' (List.mem_cons_of_mem _ hm')).trans ?_
    rw [lookup_insert, if_neg (h m List.mem_cons_self)]

/-- A key that is assigned once has the value it was assigned. -/
theorem lookup_assign_of_mem {members acc : List (ByteString × Json)} {key : ByteString} {value : Json}
    (hnodup : (members.map Prod.fst).Nodup) (hmem : (key, value) ∈ members) :
    lookup key (assign members acc) = some value := by
  induction members generalizing acc with
  | nil => cases hmem
  | cons m members ih =>
    rw [List.map_cons, List.nodup_cons] at hnodup
    obtain rfl | hmem := List.mem_cons.mp hmem
    · have hfresh : ∀ m ∈ members, m.1 ≠ key := by
        rintro m hm rfl
        exact hnodup.1 (List.mem_map.mpr ⟨m, hm, rfl⟩)
      refine (lookup_assign_of_forall_ne hfresh).trans ?_
      rw [lookup_insert, if_pos rfl]
    · exact ih hnodup.2 hmem

theorem find?_object_of_mem {members : List (ByteString × Json)} {key : ByteString} {value : Json}
    (hnodup : (members.map Prod.fst).Nodup) (hmem : (key, value) ∈ members) :
    (object members).find? key = some value := lookup_assign_of_mem hnodup hmem

theorem find?_object_of_forall_ne {members : List (ByteString × Json)} {key : ByteString}
    (h : ∀ m ∈ members, m.1 ≠ key) : (object members).find? key = none := lookup_assign_of_forall_ne h

/-- The members of an object of which some fields may be absent. -/
def presentFields (fields : List (ByteString × Option Json)) : List (ByteString × Json) :=
  fields.filterMap fun f => f.2.map (f.1, ·)

theorem mem_presentFields {fields : List (ByteString × Option Json)} {key : ByteString} {value : Json} :
    (key, value) ∈ presentFields fields ↔ (key, some value) ∈ fields := by
  simp only [presentFields, List.mem_filterMap, Option.map_eq_some_iff, Prod.mk.injEq, Prod.exists]
  constructor
  · rintro ⟨k, v, hmem, w, rfl, rfl, rfl⟩
    exact hmem
  · exact fun hmem => ⟨key, some value, hmem, value, rfl, rfl, rfl⟩

theorem keys_presentFields (fields : List (ByteString × Option Json)) :
    ((presentFields fields).map Prod.fst).Sublist (fields.map Prod.fst) := by
  induction fields with
  | nil => exact List.Sublist.slnil
  | cons f fields ih =>
    obtain ⟨key, value⟩ := f
    cases value with
    | none => exact List.Sublist.cons key ih
    | some value => exact List.Sublist.cons_cons key ih

/-- An object with optional fields has each field as it was given. -/
theorem find?_presentFields {fields : List (ByteString × Option Json)} {key : ByteString} {value : Option Json}
    (hnodup : (fields.map Prod.fst).Nodup) (hmem : (key, value) ∈ fields) :
    (object (presentFields fields)).find? key = value := by
  cases value with
  | some value => exact find?_object_of_mem (hnodup.sublist (keys_presentFields fields)) (mem_presentFields.mpr hmem)
  | none =>
    apply find?_object_of_forall_ne
    rintro ⟨k, v⟩ hv rfl
    cases List.inj_on_of_nodup_map hnodup (mem_presentFields.mp hv) hmem rfl

end Object

end Json
