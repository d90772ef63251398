import KnishIO.Molecule.RoundTrip
import KnishIO.Molecule.ServedRoundTrip

open ByteString

namespace KnishIO

namespace Molecule

section Serving

variable {F : Json.FloatText} {H : Shake256} {served servedAtom : Json} {atom : Atom} {m : Molecule}

/-- A served rendering of an atom that was sent, where a place that is empty may be left out. -/
def ServesAtom (F : Json.FloatText) (servedAtom : Json) (atom : Atom) : Prop :=
  RendersAtom F servedAtom atom ∨
    filled atom = false ∧ RendersString servedAtom "position" atom.position ∧
      RendersString servedAtom "walletAddress" atom.walletAddress ∧ RendersString servedAtom "isotope" atom.isotope

/-- A served rendering of a molecule that was sent. -/
structure Serves (F : Json.FloatText) (served : Json) (m : Molecule) : Prop where
  bundle : RendersString served "bundleHash" m.bundle
  molecularHash : RendersString served "molecularHash" m.molecularHash
  cellSlug : RendersString served "cellSlug" m.cellSlug
  status : RendersString served "status" m.status
  createdAt : RendersTime served m.createdAt
  atoms : ∃ servedAtoms, served.find? (ascii "atoms") = some (.arr servedAtoms) ∧
    List.Forall₂ (ServesAtom F) servedAtoms m.atoms

theorem ServesAtom.place (h : ServesAtom F servedAtom atom) :
    RendersString servedAtom "position" atom.position ∧ RendersString servedAtom "walletAddress" atom.walletAddress ∧
      RendersString servedAtom "isotope" atom.isotope := by
  obtain h | ⟨-, hposition, haddress, hisotope⟩ := h
  · exact ⟨.inl h.position, .inl h.walletAddress, .inl h.isotope⟩
  · exact ⟨hposition, haddress, hisotope⟩

theorem forall₂_rendersAtom {servedAtoms : List Json} {atoms : List Atom} (h : List.Forall₂ (ServesAtom F) servedAtoms atoms)
    (hfilled : ∀ a ∈ atoms, filled a = true) : List.Forall₂ (RendersAtom F) servedAtoms atoms := by
  induction h with
  | nil => exact .nil
  | cons hhead _ ih =>
    obtain ⟨hfilledHead, hfilled⟩ := List.forall_mem_cons.mp hfilled
    obtain hrenders | ⟨hnot, -⟩ := hhead
    · exact .cons hrenders (ih hfilled)
    · cases hnot.symm.trans hfilledHead

/-- Filled atoms have no place to leave out. -/
theorem Serves.renders (h : Serves F served m) (hfilled : ∀ a ∈ m.atoms, filled a = true) : Renders F served m := by
  obtain ⟨servedAtoms, hfind, hatoms⟩ := h.atoms
  exact ⟨h.bundle, h.molecularHash, h.cellSlug, h.status, h.createdAt, servedAtoms, hfind, forall₂_rendersAtom hatoms hfilled⟩

/-- What is read of an atom is filled only when the atom is. -/
theorem Serves.filled_of_view (h : Serves F served m) (hserved : served.Valid F) {now : Int64}
    {forcedVersion : Option ByteString} (hforced : ∀ version, forcedVersion = some version → Utf8.valid version = true)
    {view : Molecule} (hview : clientView F now served forcedVersion = .ok view) : ∀ a ∈ m.atoms, filled a = true := by
  obtain ⟨servedAtoms, clients, client, hfind, hclients, -, -, -, hreads⟩ := clientView_ok hserved hforced hview
  obtain ⟨servedAtoms', hfind', hserves⟩ := h.atoms
  obtain rfl : servedAtoms = servedAtoms' := Json.arr.inj (Option.some.inj (hfind.symm.trans hfind'))
  intro a ha
  obtain ⟨servedAtom, hmem, hatom⟩ := (exists_of_forall₂ hserves).2 a ha
  obtain ⟨item, hitem, hclient⟩ := (exists_of_forall₂ hclients).1 servedAtom hmem
  obtain ⟨read, -, hread, hfilled⟩ := (exists_of_forall₂ hreads).1 item hitem
  obtain ⟨value, -, hfields⟩ := servedAtomToClient_ok hclient
  obtain ⟨-, -, hposition, haddress, hisotope, -⟩ := Atom.ofJson_ok hread
  obtain ⟨hservedPosition, hservedAddress, hservedIsotope⟩ := hatom.place
  have hfound {key : ByteString} {field : Option Json} (hmem : (key, field) ∈ clientAtomFields F forcedVersion servedAtom value) :
      item.find? key = field := by
    rw [hfields]
    exact find?_clientAtomFields hmem
  have hposition' : Atom.readString item "position" = .ok a.position :=
    readString_of_member (hfound (by simp [clientAtomFields])) hservedPosition
  have haddress' : Atom.readString item "walletAddress" = .ok a.walletAddress :=
    readString_of_member (hfound (by simp [clientAtomFields])) hservedAddress
  have hisotope' : Atom.readString item "isotope" = .ok a.isotope :=
    readString_of_member (hfound (by simp [clientAtomFields])) hservedIsotope
  rw [filled, ← Except.ok.inj (hposition.symm.trans hposition'), ← Except.ok.inj (haddress.symm.trans haddress'),
    ← Except.ok.inj (hisotope.symm.trans hisotope')]
  exact hfilled

/-- Served back, an accepted molecule verifies exactly when every atom of it has a position and an address. -/
theorem verifies_served_iff (clock : Option ByteString → Int64) (hcheck : check H m = .ok ()) {servedJson : ByteString}
    (hparse : Json.parse F servedJson = some served) (h : Serves F served m) :
    ∃ r, verifyFromServerData F H clock servedJson = .ok r ∧ (r.verified = true ↔ ∀ a ∈ m.atoms, filled a = true) := by
  have hvalid := Json.parse_valid hparse
  by_cases hfilled : ∀ a ∈ m.atoms, filled a = true
  · have hrenders : Renders F served { m with sourceWallet := none, remainderWallet := none } := by
      obtain ⟨hbundle, hhash, hslug, hstatus, htime, hatoms⟩ := h.renders hfilled
      exact ⟨hbundle, hhash, hslug, hstatus, htime, hatoms⟩
    have hview := clientView_of_renders (m := { m with sourceWallet := none, remainderWallet := none }) hvalid (clock none) none
      nofun hfilled ⟨rfl, rfl⟩ hrenders
    rw [map_underVersion_none] at hview
    obtain ⟨r, hr, hverified⟩ := verifyFromServerData_of_verified hparse
      (verifyClient_verified hview (check_congr rfl rfl hcheck))
    exact ⟨r, hr, iff_of_true hverified hfilled⟩
  · obtain ⟨hnone, -⟩ | ⟨served', forcedVersion, hparse', hr, hforced⟩ := verifyFromServerData_cases F H clock servedJson
    · cases hnone.symm.trans hparse
    · obtain rfl := Option.some.inj (hparse.symm.trans hparse')
      have hutf8 : ∀ version, forcedVersion = some version → Utf8.valid version = true := by
        rintro version rfl
        obtain hnone | ⟨-, hversion | hversion⟩ := hforced
        · cases hnone
        · obtain rfl := Option.some.inj hversion
          decide
        · obtain rfl := Option.some.inj hversion
          decide
      refine ⟨_, hr, iff_of_false ?_ hfilled⟩
      obtain ⟨view, hview, -⟩ | ⟨-, hrejected, -⟩ := verifyClient_cases F H (clock forcedVersion) served forcedVersion
      · exact absurd (h.filled_of_view hvalid hutf8 hview) hfilled
      · rw [hrejected]
        exact Bool.false_ne_true

/-- The served form serves the molecule. -/
theorem serves_servedForm (F : Json.FloatText) (h : ∀ a ∈ m.atoms, a.Plain) : Serves F m.servedForm m := by
  obtain ⟨hbundle, hhash, hslug, hstatus, htime, servedAtoms, hfind, hatoms⟩ := renders_servedForm F h
  exact ⟨hbundle, hhash, hslug, hstatus, htime, servedAtoms, hfind, hatoms.imp fun _ _ => .inl⟩

end Serving

end Molecule

end KnishIO
