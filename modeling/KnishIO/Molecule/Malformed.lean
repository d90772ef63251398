import KnishIO.Molecule.Conservation

open ByteString

namespace KnishIO

namespace Molecule

open BinaryFloat CFloat

/-- What the V-only path throws at a value. -/
def invalidValues : Exception := .runtimeError (ascii "Invalid isotope \"V\" values")

/-- `strtod` reads the value to its end. Nothing is read from an empty value, and nothing is left of it. -/
def parsesWhole (value : ByteString) : Bool := (strtod value).2 = []

/-- The value is empty, or `std::stold` reads a number from it. -/
def parsesPrefix (value : ByteString) : Bool := value = [] || (stold value).isOk

section VOnlyPath

theorem tokenSum_unparsed (token : ByteString) {atoms : List Atom} {a : Atom} (ha : a ∈ atoms) (hselect : isVOf token a = true)
    (hvalue : parsesWhole a.value = false) (result : Value) : tokenSum token result atoms = .error invalidValues := by
  induction atoms generalizing result with
  | nil => cases ha
  | cons atom rest ih =>
    rw [tokenSum]
    split_ifs with hskip
    · refine ih ?_ result
      obtain rfl | ha := List.mem_cons.mp ha
      · simp only [isVOf, Bool.and_eq_true, decide_eq_true_eq] at hselect
        simp [hselect.1, hselect.2] at hskip
      · exact ha
    · split
      · rename_i value hread
        refine ih ?_ _
        obtain rfl | ha := List.mem_cons.mp ha
        · simp [parsesWhole, hread] at hvalue
        · exact ha
      · rfl

theorem tokenSum_error {token : ByteString} {atoms : List Atom} {result : Value} {e : Exception}
    (h : tokenSum token result atoms = .error e) : ∃ a ∈ atoms, isV a = true ∧ parsesWhole a.value = false := by
  induction atoms generalizing result with
  | nil => cases h
  | cons atom rest ih =>
    rw [tokenSum] at h
    split_ifs at h with hskip
    · obtain ⟨a, ha, hfails⟩ := ih h
      exact ⟨a, List.mem_cons_of_mem _ ha, hfails⟩
    · split at h
      · obtain ⟨a, ha, hfails⟩ := ih h
        exact ⟨a, List.mem_cons_of_mem _ ha, hfails⟩
      · rename_i hread
        refine ⟨atom, List.mem_cons_self, ?_, ?_⟩
        · by_contra hv
          exact hskip (by simp [hv])
        · simpa [parsesWhole] using fun hempty => hread (strtod atom.value).1 (Prod.ext rfl hempty)

/-- The loop throws at values that do not parse only. -/
theorem tokenSums_error {earlier atoms : List Atom} {e : Exception} (h : tokenSums earlier atoms = .error e) :
    ∃ a ∈ atoms, isV a = true ∧ parsesWhole a.value = false := by
  induction atoms generalizing earlier with
  | nil => cases h
  | cons atom rest ih =>
    have hlater (h : tokenSums (earlier ++ [atom]) rest = .error e) :
        ∃ a ∈ atom :: rest, isV a = true ∧ parsesWhole a.value = false := by
      obtain ⟨a, ha, hfails⟩ := ih h
      exact ⟨a, List.mem_cons_of_mem _ ha, hfails⟩
    rw [tokenSums] at h
    split_ifs at h with hv hseen
    · exact hlater h
    · exact hlater h
    · split at h
      next e' hsum => exact tokenSum_error hsum
      next result hsum =>
        split_ifs at h
        exact hlater h

/-- It throws when a token that a V atom leads has such a value, where every token without one sums to zero. -/
theorem tokenSums_unparsed {earlier atoms : List Atom} {a : Atom} (ha : a ∈ atoms) (hv : isV a = true)
    (hvalue : parsesWhole a.value = false) (hfresh : ∀ e ∈ earlier, e.token ≠ a.token)
    (hleads : leadsWithV a.token atoms = true)
    (hbalanced : ∀ token, (∀ e ∈ earlier, e.token ≠ token) → (∀ b ∈ atoms, isVOf token b = true → parsesWhole b.value = true) →
      ∃ result, tokenSum token (.finite 0) atoms = .ok result ∧ isNonzero result = false) :
    tokenSums earlier atoms = .error invalidValues := by
  induction atoms generalizing earlier with
  | nil => cases ha
  | cons atom rest ih =>
    by_cases hsame : atom.token = a.token
    · rw [leadsWithV_cons, if_pos hsame] at hleads
      have hunseen : ¬(earlier.any fun e => e.token = atom.token) = true := by
        simpa [hsame] using hfresh
      have hsum := tokenSum_unparsed a.token ha (by simp [isVOf, hv]) hvalue (.finite 0)
      rw [tokenSums, if_neg (by simp [hleads]), if_neg hunseen, hsame, hsum]
    · have hrest : a ∈ rest := (List.mem_cons.mp ha).resolve_left fun h => hsame (h ▸ rfl)
      rw [leadsWithV_cons, if_neg hsame] at hleads
      have hlater : tokenSums (earlier ++ [atom]) rest = .error invalidValues := by
        refine ih hrest ?_ hleads fun token hearlier hparses => ?_
        · simpa [or_imp, forall_and] using ⟨hfresh, hsame⟩
        · have hsplit : (∀ e ∈ earlier, e.token ≠ token) ∧ atom.token ≠ token := by
            simpa [or_imp, forall_and] using hearlier
          obtain ⟨result, hsum, hzero⟩ := hbalanced token hsplit.1 fun b hb hselect => by
            obtain rfl | hb := List.mem_cons.mp hb
            · simp [isVOf_of_ne hsplit.2] at hselect
            · exact hparses b hb hselect
          rw [tokenSum, if_pos (by simp [hsplit.2])] at hsum
          exact ⟨result, hsum, hzero⟩
      by_cases hskip : (!isV atom) = true
      · rw [tokenSums, if_pos hskip, hlater]
      by_cases hseen : (earlier.any fun e => e.token = atom.token) = true
      · rw [tokenSums, if_neg hskip, if_pos hseen, hlater]
      -- The current atom's own token throws already, or it sums to zero and the loop goes on.
      by_cases hparses : ∀ b ∈ atom :: rest, isVOf atom.token b = true → parsesWhole b.value = true
      · obtain ⟨result, hsum, hzero⟩ := hbalanced atom.token (by simpa using hseen) hparses
        rw [tokenSums, if_neg hskip, if_neg hseen, hsum]
        dsimp only
        rw [if_neg (by simp [hzero]), hlater]
      · push Not at hparses
        obtain ⟨b, hb, hselect, hfails⟩ := hparses
        have hsum := tokenSum_unparsed _ hb hselect (by simpa using hfails) (.finite 0)
        rw [tokenSums, if_neg hskip, if_neg hseen, hsum]

end VOnlyPath

section CrossPath

theorem foldlM_crossStep_none {s : Value × Bool} {atoms : List Atom} {a : Atom} (ha : a ∈ atoms)
    (hfails : ∀ s, crossStep s a = none) : atoms.foldlM crossStep s = none := by
  induction atoms generalizing s with
  | nil => cases ha
  | cons atom rest ih =>
    rw [List.foldlM_cons]
    obtain rfl | ha := List.mem_cons.mp ha
    · rw [hfails]
      rfl
    · cases crossStep s atom with
      | none => rfl
      | some s' => exact ih ha

theorem foldlM_crossStep_some {s : Value × Bool} {atoms : List Atom} (h : ∀ a ∈ atoms, ∀ s, crossStep s a ≠ none) :
    atoms.foldlM crossStep s ≠ none := by
  induction atoms generalizing s with
  | nil => exact Option.some_ne_none s
  | cons atom rest ih =>
    rw [List.foldlM_cons]
    cases hstep : crossStep s atom with
    | none => exact absurd hstep (h atom List.mem_cons_self s)
    | some s' => exact ih fun a ha => h a (List.mem_cons_of_mem _ ha)

/-- A V atom ends the loop when its value does not parse. -/
theorem crossStep_none_iff {a : Atom} (hv : isV a = true) (s : Value × Bool) :
    crossStep s a = none ↔ parsesPrefix a.value = false := by
  have hisotope : a.isotope = ascii "V" := by simpa [isV] using hv
  have hother : (isB a || isF a) = false := by
    rw [isB, isF, hisotope]
    decide
  have hnotF : isF a = false := (Bool.or_eq_false_iff.mp hother).2
  rw [crossStep, if_neg (by simp [hother]), if_pos hv, crossStep.addValue, parsesPrefix]
  split_ifs with hempty
  · simp [hempty]
  · cases stold a.value <;> simp [hempty, hnotF, Except.isOk, Except.toBool]

theorem crossStep_other {a : Atom} (hv : isV a = false) (hother : isB a = false ∧ isF a = false) (s : Value × Bool) :
    crossStep s a = some s := by
  rw [crossStep, if_neg (by simp [hother]), if_neg (by simp [hv])]

end CrossPath

section Agreement

/-- A number that is nothing but itself, and that `long double` holds. -/
def WellFormedValue (value : ByteString) : Prop :=
  value = [] ∨ ∃ number, scan value = some (number, []) ∧ outOfRange extended number = false

theorem WellFormedValue.parses {value : ByteString} (h : WellFormedValue value) :
    parsesWhole value = true ∧ parsesPrefix value = true := by
  obtain rfl | ⟨number, hscan, hrange⟩ := h
  · decide
  · simp [parsesWhole, parsesPrefix, strtod, stold, hscan, hrange, Except.isOk, Except.toBool]

/-- A V-only molecule with a V atom of the value: the check comes to the atom, and nothing else is wrong. The token
of the atom has a V atom first, the other values are well formed, and the tokens without the value are conserved. -/
structure Carries (value : ByteString) (m : Molecule) : Prop where
  hash : m.molecularHash ≠ []
  only : ∀ a ∈ m.atoms, isB a = false ∧ isF a = false
  carried : ∃ a ∈ m.atoms, isV a = true ∧ a.value = value ∧ leadsWithV a.token m.atoms = true
  others : ∀ a ∈ m.atoms, isV a = true → a.value = value ∨ WellFormedValue a.value
  conserved : ∀ token, (∀ a ∈ m.atoms, isVOf token a = true → a.value ≠ value) →
    ∃ result, tokenSum token (.finite 0) m.atoms = .ok result ∧ isNonzero result = false

/-- A B or F atom that the mixed check takes. -/
structure WellFormedBuffer (b : Atom) : Prop where
  isotope : isB b = true ∨ isF b = true
  reference : bundleReference b = true
  value : ∃ number, scan b.value = some (number, []) ∧ outOfRange extended number = false ∧
    (isF b = true → isNegative (number.round extended) = false)

/-- Both paths reject the value for not parsing, or neither does; and no number with a text behind it is counted. -/
structure RejectedAlike (value : ByteString) : Prop where
  alike : ∀ (m m' : Molecule) (front back : List Atom) (b : Atom), Carries value m → m.atoms = front ++ back →
    WellFormedBuffer b → m'.atoms = front ++ b :: back →
    (verifyTokenIsotopeV m = .error invalidValues ↔ m'.atoms.foldlM crossStep (.finite 0, false) = none)
  uncounted : ∀ number rest, scan value = some (number, rest) → rest ≠ [] →
    parsesWhole value = false ∧ parsesPrefix value = false

theorem Carries.throws_iff {value : ByteString} {m : Molecule} (h : Carries value m) :
    verifyTokenIsotopeV m = .error invalidValues ↔ parsesWhole value = false := by
  obtain ⟨a, ha, hv, rfl, hleads⟩ := h.carried
  have hatoms : m.atoms ≠ [] := List.ne_nil_of_mem ha
  have hnone : ¬(m.atoms.any fun a => isB a || isF a) = true := by simpa using h.only
  rw [verifyTokenIsotopeV, if_neg (not_or.mpr ⟨hatoms, h.hash⟩), if_neg hnone]
  constructor
  · intro hthrows
    obtain ⟨b, hb, hbv, hfails⟩ := tokenSums_error hthrows
    obtain hsame | hwell := h.others b hb hbv
    · exact hsame ▸ hfails
    · exact absurd hfails (by simp [hwell.parses.1])
  · intro hfails
    refine tokenSums_unparsed ha hv hfails (fun e he => by cases he) hleads fun token _ hparses => ?_
    refine h.conserved token fun b hb hselect hsame => ?_
    rw [← hsame, hparses b hb hselect] at hfails
    cases hfails

theorem WellFormedBuffer.taken {b : Atom} (h : WellFormedBuffer b) (s : Value × Bool) : crossStep s b ≠ none := by
  obtain ⟨number, hscan, hrange, hsign⟩ := h.value
  have hread : stold b.value = .ok (number.round extended) := by simp [stold, hscan, hrange]
  have hguard : ¬(isF b && isNegative (number.round extended)) = true := by
    intro hnegative
    obtain ⟨hF, hnegative⟩ := (Bool.and_eq_true _ _).mp hnegative
    rw [hsign hF] at hnegative
    cases hnegative
  have hadds (t : Value × Bool) : crossStep.addValue t b ≠ none := by
    rw [crossStep.addValue, hread]
    split_ifs with hempty
    · exact Option.some_ne_none t
    · dsimp only
      rw [if_neg hguard]
      exact Option.some_ne_none _
  rw [crossStep, if_pos (by simpa using h.isotope), if_neg (by simp [h.reference])]
  exact hadds _

theorem Carries.rejects_iff {value : ByteString} {m m' : Molecule} {back : List Atom} {b : Atom} (h : Carries value m)
    (front : List Atom) (hatoms : m.atoms = front ++ back) (hb : WellFormedBuffer b) (hadded : m'.atoms = front ++ b :: back) :
    m'.atoms.foldlM crossStep (.finite 0, false) = none ↔ parsesPrefix value = false := by
  have hmem : ∀ a, a ∈ m'.atoms ↔ a = b ∨ a ∈ m.atoms := by
    intro a
    rw [hadded, hatoms, List.mem_append, List.mem_append, List.mem_cons]
    tauto
  constructor
  · intro hrejects
    by_contra htaken
    refine foldlM_crossStep_some (fun a ha s => ?_) hrejects
    obtain rfl | ha := (hmem a).mp ha
    · exact hb.taken s
    · by_cases hv : isV a = true
      · rw [Ne, crossStep_none_iff hv]
        obtain rfl | hwell := h.others a ha hv
        · exact htaken
        · simp [hwell.parses.2]
      · rw [crossStep_other (by simpa using hv) (h.only a ha)]
        exact Option.some_ne_none s
  · intro hfails
    obtain ⟨a, ha, hv, rfl, -⟩ := h.carried
    exact foldlM_crossStep_none ((hmem a).mpr (.inr ha)) fun s => (crossStep_none_iff hv s).mpr hfails

/-- A V atom of the value. -/
def carriedAtom (value : ByteString) : Atom where
  position := ascii "0a"
  walletAddress := ascii "0b"
  isotope := ascii "V"
  token := ascii "T"
  value := value
  createdAt := 0

theorem isV_carriedAtom (value : ByteString) : isV (carriedAtom value) = true := by
  simp [isV, carriedAtom]

theorem carries_carriedAtom (value : ByteString) : Carries value (moleculeOf [carriedAtom value]) where
  hash := by simp [moleculeOf, ascii]
  only a ha := by
    obtain rfl := List.mem_singleton.mp ha
    constructor
    · simp [isB, carriedAtom, ascii]
    · simp [isF, carriedAtom, ascii]
  carried := by
    refine ⟨carriedAtom value, List.mem_singleton_self _, isV_carriedAtom value, rfl, ?_⟩
    rw [moleculeOf, leadsWithV_cons, if_pos rfl, isV_carriedAtom]
  others a ha _ := .inl (congrArg Atom.value (List.mem_singleton.mp ha))
  conserved token hother := by
    refine ⟨.finite 0, ?_, by simp [isNonzero]⟩
    have habsent : (!isV (carriedAtom value) || (carriedAtom value).token ≠ token) = true := by
      by_contra hselect
      exact hother (carriedAtom value) (List.mem_singleton_self _) (by simpa [isVOf] using hselect) rfl
    rw [moleculeOf, tokenSum, if_pos habsent, tokenSum]

theorem wellFormedBuffer_zero : WellFormedBuffer (valueAtom "B" "T" "0") where
  isotope := .inl (by decide)
  reference := by decide
  value := ⟨.rational (0 : Int), scan_decimalInt (by decide), outOfRange_exact (extended_round_int (by decide)),
    fun h => absurd h (by decide)⟩

/-- Both paths treat a value alike that is empty, that starts with no number, that is a number and nothing else in
the range of `long double`, or that has a text behind a number out of this range. -/
theorem rejectedAlike_iff (value : ByteString) :
    RejectedAlike value ↔ value = [] ∨ scan value = none ∨
      ∃ number rest, scan value = some (number, rest) ∧ (rest = [] ↔ outOfRange extended number = false) := by
  have hcondition : (parsesWhole value = parsesPrefix value) ↔ value = [] ∨ scan value = none ∨
      ∃ number rest, scan value = some (number, rest) ∧ (rest = [] ↔ outOfRange extended number = false) := by
    by_cases hempty : value = []
    · subst hempty
      exact ⟨fun _ => .inl rfl, fun _ => by decide⟩
    cases hscan : scan value with
    | none => simp [parsesWhole, parsesPrefix, strtod, stold, hscan, hempty, Except.isOk, Except.toBool]
    | some r =>
      obtain ⟨number, rest⟩ := r
      cases hrange : outOfRange extended number <;>
        simp [parsesWhole, parsesPrefix, strtod, stold, hscan, hempty, hrange, Except.isOk, Except.toBool]
  rw [← hcondition]
  constructor
  · intro h
    have hcarries := carries_carriedAtom value
    have hiff := h.alike (moleculeOf [carriedAtom value]) (moleculeOf [valueAtom "B" "T" "0", carriedAtom value]) []
      [carriedAtom value] _ hcarries rfl wellFormedBuffer_zero rfl
    rw [hcarries.throws_iff, hcarries.rejects_iff [] rfl wellFormedBuffer_zero rfl] at hiff
    exact Bool.eq_iff_iff.mpr (by simpa using not_congr hiff)
  · intro hsame
    refine ⟨fun m m' front back b hcarries hatoms hb hadded => ?_, fun number rest hscan hrest => ?_⟩
    · rw [hcarries.throws_iff, hcarries.rejects_iff _ hatoms hb hadded, hsame]
    · have hwhole : parsesWhole value = false := by simp [parsesWhole, strtod, hscan, hrest]
      exact ⟨hwhole, hsame ▸ hwhole⟩

/-- Five with a text behind it is thrown at on one path and counted on the other. -/
theorem rejectedAlike_trailing_text :
    verifyTokenIsotopeV (moleculeOf [valueAtom "V" "T" "5abc"]) = .error invalidValues ∧
      verifyTokenIsotopeV (moleculeOf [valueAtom "V" "T" "5abc", valueAtom "B" "T" "-5"]) = .ok true ∧
      ¬∀ value, RejectedAlike value := by
  refine ⟨by decide, by decide +kernel, fun hclaim => ?_⟩
  have hread : (scan (ascii "5abc")).map Prod.snd = some (ascii "abc") := by decide
  obtain ⟨⟨number, rest⟩, hscan, rfl⟩ := Option.map_eq_some_iff.mp hread
  have hcounted := ((hclaim (ascii "5abc")).uncounted number _ hscan (by decide)).2
  revert hcounted
  decide +kernel

end Agreement

end Molecule

end KnishIO
