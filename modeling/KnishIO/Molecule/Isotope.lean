import KnishIO.Library.CFloat
import KnishIO.Molecule

open ByteString

namespace KnishIO

namespace Molecule

open BinaryFloat CFloat

def isB (atom : Atom) : Bool := atom.isotope = ascii "B"

def isF (atom : Atom) : Bool := atom.isotope = ascii "F"

def isV (atom : Atom) : Bool := atom.isotope = ascii "V"

/-- `1e-9L`. -/
def tolerance : ℚ := roundSignificand extended (1 / 10 ^ 9)

/-- A buffer or fusion atom must reference a wallet bundle. -/
def bundleReference (atom : Atom) : Bool := atom.metaType = ascii "walletBundle" && atom.metaId ≠ []

/-- One round of the conservation loop: the sum and whether a B or F atom was seen; absent where the
loop returns false. -/
def crossStep (s : Value × Bool) (atom : Atom) : Option (Value × Bool) :=
  if isB atom || isF atom then
    if !bundleReference atom then none
    else addValue (s.1, true) atom
  else if isV atom then addValue s atom
  else some s
where
  /-- An empty value counts for nothing; one that does not parse, or a negative one on an F atom, fails. -/
  addValue (s : Value × Bool) (atom : Atom) : Option (Value × Bool) :=
    if atom.value = [] then some s
    else
      match stold atom.value with
      | .error _ => none
      | .ok parsed => if isF atom && isNegative parsed then none else some (add extended s.1 parsed, s.2)

def verifyCrossIsotopeConservation (m : Molecule) : Bool :=
  match m.atoms.foldlM crossStep (.finite 0, false) with
  | none => false
  | some (crossSum, sawCrossIsotope) => !sawCrossIsotope || absLt crossSum tolerance

/-- The V values of a token from an atom on, added to `result`. -/
def tokenSum (token : ByteString) (result : Value) : List Atom → Throws Value
  | [] => .ok result
  | atom :: rest =>
    if !isV atom || atom.token ≠ token then tokenSum token result rest
    else
      match strtod atom.value with
      | (value, []) => tokenSum token (add double result value) rest
      | _ => .error (.runtimeError (ascii "Invalid isotope \"V\" values"))

/-- The loop over the atoms; `earlier` are the atoms before the current one. A V atom whose token
stands on any earlier atom is taken for already summed. -/
def tokenSums (earlier : List Atom) : List Atom → Throws Bool
  | [] => .ok true
  | atom :: rest =>
    if !isV atom then tokenSums (earlier ++ [atom]) rest
    else if earlier.any fun a => a.token = atom.token then tokenSums (earlier ++ [atom]) rest
    else
      match tokenSum atom.token (.finite 0) (atom :: rest) with
      | .error e => .error e
      | .ok result => if isNonzero result then .ok false else tokenSums (earlier ++ [atom]) rest

def verifyTokenIsotopeV (m : Molecule) : Throws Bool :=
  if m.atoms = [] ∨ m.molecularHash = [] then .ok false
  else if m.atoms.any fun a => isB a || isF a then .ok (verifyCrossIsotopeConservation m)
  else tokenSums [] m.atoms

/-- Only a molecule signed by a USER wallet needs a ContinuID atom. -/
def verifyContinuId (m : Molecule) : Bool :=
  match m.atoms with
  | [] => true
  | front :: _ => if front.token ≠ ascii "USER" then true else m.atoms.any fun a => a.isotope = ascii "I"

/-- `tokenValid` after the `try` around the isotope check. -/
def tokenValid (m : Molecule) : Bool :=
  match verifyTokenIsotopeV m with
  | .ok valid => valid
  | .error _ => false

/-- Only the hash check can throw; the other two are guarded. -/
def verify (H : Shake256) (m : Molecule) : Throws Bool :=
  (verifyMolecularHash H m).map fun hashValid =>
    hashValid && tokenValid m && (match verifyOts H m with | .ok () => true | .error _ => false)

def check (H : Shake256) (m : Molecule) : Throws Unit :=
  if m.atoms = [] then .error .atomsNotFound
  else if !verifyContinuId m then
    .error (.atomsNotFoundWith "Check::continuId() - Molecule is missing required ContinuID Atom!")
  else
    match verifyMolecularHash H m with
    | .error e => .error e
    | .ok false => .error (.runtimeError (ascii "Molecule validation failed"))
    | .ok true =>
      match verifyOts H m with
      | .error e => .error e
      | .ok () => if tokenValid m then .ok () else .error (.runtimeError (ascii "Molecule validation failed"))

/-- What `check` asks for. -/
theorem check_ok_iff {H : Shake256} {m : Molecule} :
    check H m = .ok () ↔ m.atoms ≠ [] ∧ verifyContinuId m = true ∧ verifyMolecularHash H m = .ok true ∧
      verifyOts H m = .ok () ∧ tokenValid m = true := by
  unfold check
  by_cases hatoms : m.atoms = []
  · simp [hatoms]
  cases hcontinuId : verifyContinuId m with
  | false => simp [hatoms]
  | true =>
    cases hhash : verifyMolecularHash H m with
    | error e => simp [hatoms]
    | ok valid =>
      cases valid with
      | false => simp [hatoms]
      | true =>
        cases hots : verifyOts H m with
        | error e => simp [hatoms]
        | ok _ => cases htoken : tokenValid m <;> simp [hatoms]

section Congruence

/-- The two atoms agree in what the isotope checks read. -/
structure SameLedger (a b : Atom) : Prop where
  isotope : a.isotope = b.isotope
  token : a.token = b.token
  value : a.value = b.value
  metaType : a.metaType = b.metaType
  metaId : a.metaId = b.metaId

theorem SameLedger.kind {a b : Atom} (h : SameLedger a b) : isV a = isV b ∧ isB a = isB b ∧ isF a = isF b := by
  simp only [isV, isB, isF, h.isotope, and_self]

theorem crossStep_congr (s : Value × Bool) {a b : Atom} (h : SameLedger a b) : crossStep s a = crossStep s b := by
  obtain ⟨hv, hb, hf⟩ := h.kind
  have hreference : bundleReference a = bundleReference b := by rw [bundleReference, bundleReference, h.metaType, h.metaId]
  have hadd (t : Value × Bool) : crossStep.addValue t a = crossStep.addValue t b := by
    rw [crossStep.addValue, crossStep.addValue, h.value, hf]
  rw [crossStep, crossStep, hv, hb, hf, hreference, hadd, hadd]

theorem foldlM_crossStep_congr {xs ys : List Atom} (h : List.Forall₂ SameLedger xs ys) (s : Value × Bool) :
    xs.foldlM crossStep s = ys.foldlM crossStep s := by
  induction h generalizing s with
  | nil => rfl
  | cons hhead _ ih =>
    rw [List.foldlM_cons, List.foldlM_cons, crossStep_congr s hhead]
    simp only [ih]

theorem tokenSum_congr (token : ByteString) {xs ys : List Atom} (h : List.Forall₂ SameLedger xs ys) (result : Value) :
    tokenSum token result xs = tokenSum token result ys := by
  induction h generalizing result with
  | nil => rfl
  | cons hhead _ ih =>
    rw [tokenSum, tokenSum, hhead.kind.1, hhead.token, hhead.value, ih]
    split
    · rfl
    · split
      · exact ih _
      · rfl

theorem tokenSums_congr {xs ys : List Atom} (h : List.Forall₂ SameLedger xs ys) {earlier earlier' : List Atom}
    (hearlier : List.Forall₂ SameLedger earlier earlier') : tokenSums earlier xs = tokenSums earlier' ys := by
  induction h generalizing earlier earlier' with
  | nil => rfl
  | cons hhead htail ih =>
    rename_i a b as bs
    have hnext := ih (List.rel_append hearlier (.cons hhead .nil))
    have hseen (token : ByteString) : (earlier.any fun e => e.token = token) = earlier'.any fun e => e.token = token := by
      clear hnext
      induction hearlier with
      | nil => rfl
      | cons hfirst _ ihSeen => rw [List.any_cons, List.any_cons, hfirst.token, ihSeen]
    have hsum := tokenSum_congr b.token (.cons hhead htail) (.finite 0)
    rw [tokenSums, tokenSums, hhead.kind.1, hhead.token, hseen, hsum, hnext]

/-- The isotope checks see only what the ledger fields say. -/
theorem verifyTokenIsotopeV_congr {m m' : Molecule} (hatoms : List.Forall₂ SameLedger m'.atoms m.atoms)
    (hhash : m'.molecularHash = m.molecularHash) : verifyTokenIsotopeV m' = verifyTokenIsotopeV m := by
  have hempty : m'.atoms = [] ↔ m.atoms = [] := by
    rw [← List.length_eq_zero_iff, ← List.length_eq_zero_iff, hatoms.length_eq]
  have hany : (m'.atoms.any fun a => isB a || isF a) = m.atoms.any fun a => isB a || isF a := by
    generalize m'.atoms = xs at hatoms
    generalize m.atoms = ys at hatoms
    clear hempty hhash
    induction hatoms with
    | nil => rfl
    | cons hhead _ ih => rw [List.any_cons, List.any_cons, hhead.kind.2.1, hhead.kind.2.2, ih]
  have hcross : verifyCrossIsotopeConservation m' = verifyCrossIsotopeConservation m := by
    rw [verifyCrossIsotopeConservation, verifyCrossIsotopeConservation, foldlM_crossStep_congr hatoms]
  simp only [verifyTokenIsotopeV, hempty, hhash, hany, hcross, tokenSums_congr hatoms .nil]

end Congruence

section Specification

/-- The exact sum of the integer values of the atoms that a predicate selects. -/
def exactSum (select : Atom → Bool) (atoms : List Atom) : Int :=
  ((atoms.filter select).map fun a => (decimalInt? a.value).getD 0).sum

/-- The V atoms of a token. -/
def isVOf (token : ByteString) (atom : Atom) : Bool := isV atom && atom.token = token

/-- The atoms that carry value. -/
def isVBF (atom : Atom) : Bool := isV atom || isB atom || isF atom

def isVBFOf (token : ByteString) (atom : Atom) : Bool := isVBF atom && atom.token = token

/-- Every selected atom carries a decimal integer, and these integers and the partial sums over them
in the order of the atoms stay below 2^53. -/
structure IntegerValues (select : Atom → Bool) (atoms : List Atom) : Prop where
  integer : ∀ a ∈ atoms, select a = true → ∃ k, decimalInt? a.value = some k ∧ |k| < 2 ^ 53
  partialSums : ∀ front, front <+: atoms → |exactSum select front| < 2 ^ 53

theorem exactSum_nil (select : Atom → Bool) : exactSum select [] = 0 := rfl

theorem exactSum_cons (select : Atom → Bool) (atom : Atom) (atoms : List Atom) :
    exactSum select (atom :: atoms) =
      (if select atom then (decimalInt? atom.value).getD 0 else 0) + exactSum select atoms := by
  unfold exactSum
  by_cases h : select atom = true <;> simp [h]

end Specification

end Molecule

end KnishIO
