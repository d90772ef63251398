import KnishIO.Molecule.ClientView

open ByteString

namespace KnishIO

namespace Throws

variable {α β σ : Type}

/-- What it throws has a text. -/
def Speaks (x : Throws α) : Prop := ∀ e, x = .error e → e.what ≠ []

theorem Speaks.ok (a : α) : Speaks (.ok a : Throws α) := nofun

theorem Speaks.error {e : Exception} (h : e.what ≠ []) : Speaks (.error e : Throws α) := by
  rintro _ ⟨⟩
  exact h

theorem Speaks.bind {x : Throws α} {f : α → Throws β} (hx : Speaks x) (hf : ∀ a, Speaks (f a)) : Speaks (x >>= f) := by
  cases x with
  | error e => exact Speaks.error (hx e rfl)
  | ok a => exact hf a

theorem Speaks.map {x : Throws α} (hx : Speaks x) (f : α → β) : Speaks (x.map f) := by
  cases x with
  | error e => exact Speaks.error (hx e rfl)
  | ok a => exact Speaks.ok (f a)

theorem Speaks.mapM {f : α → Throws β} (hf : ∀ a, Speaks (f a)) (xs : List α) : Speaks (xs.mapM f) := by
  induction xs with
  | nil => exact Speaks.ok []
  | cons x xs ih =>
    rw [List.mapM_cons]
    exact (hf x).bind fun y => ih.bind fun ys => Speaks.ok (y :: ys)

theorem Speaks.foldlM {f : σ → α → Throws σ} (hf : ∀ s a, Speaks (f s a)) (xs : List α) (s : σ) :
    Speaks (xs.foldlM f s) := by
  induction xs generalizing s with
  | nil => exact Speaks.ok s
  | cons x xs ih =>
    rw [List.foldlM_cons]
    exact (hf s x).bind fun t => ih t

end Throws

open Throws

section Errors

theorem speaks_getString (j : Json) : Speaks (getString j) := by
  unfold getString
  split
  · exact Speaks.ok _
  · exact Speaks.error (by decide)

theorem speaks_dumpJson (j : Json) : Speaks (dumpJson j) := by
  unfold dumpJson
  split
  · exact Speaks.ok _
  · exact Speaks.error (by decide)

theorem speaks_parseJson (F : Json.FloatText) (s : ByteString) : Speaks (parseJson F s) := by
  unfold parseJson
  split
  · exact Speaks.ok _
  · exact Speaks.error (by decide)

namespace Atom

theorem speaks_readString (json : Json) (key : String) : Speaks (readString json key) := by
  unfold readString
  split
  · exact Speaks.ok _
  · exact speaks_getString _

theorem speaks_readOptional (json : Json) (key : String) : Speaks (readOptional json key) := by
  unfold readOptional
  split
  · exact Speaks.ok _
  · split
    · exact Speaks.ok _
    · exact (speaks_getString _).map _

theorem speaks_readMetaItem (s : MetaState) (item : Json) : Speaks (readMetaItem s item) := by
  unfold readMetaItem
  split
  · split
    · rename_i e hkey
      exact Speaks.error (speaks_getString _ e hkey)
    · split
      · exact Speaks.ok _
      · exact Speaks.ok _
      · exact (speaks_dumpJson _).map _
  · exact Speaks.ok _

theorem speaks_readMeta (json : Json) : Speaks (readMeta json) := by
  unfold readMeta
  split
  · exact Speaks.ok _
  · exact Speaks.foldlM speaks_readMetaItem _ _

theorem speaks_readCreatedAt (now : Int64) (json : Json) : Speaks (readCreatedAt now json) := by
  unfold readCreatedAt
  split
  · exact Speaks.ok _
  · exact Speaks.ok _
  · exact (speaks_getString _).map _

theorem speaks_ofJson (now : Int64) (json : Json) : Speaks (ofJson now json) := by
  refine (speaks_readString _ _).bind fun _ => (speaks_readString _ _).bind fun _ => ?_
  refine (speaks_readString _ _).bind fun _ => (speaks_readString _ _).bind fun _ => ?_
  refine (speaks_readOptional _ _).bind fun _ => (speaks_readOptional _ _).bind fun _ => ?_
  refine (speaks_readOptional _ _).bind fun _ => (speaks_readOptional _ _).bind fun _ => ?_
  refine (speaks_readMeta _).bind fun _ => (speaks_readOptional _ _).bind fun _ => ?_
  exact (speaks_readCreatedAt _ _).bind fun _ => Speaks.ok _

theorem speaks_jsonToObject (F : Json.FloatText) (now : Int64) (s : ByteString) : Speaks (jsonToObject F now s) :=
  (speaks_parseJson F s).bind fun json => speaks_ofJson now json

theorem speaks_hashAtomsBase17 (H : Shake256) (atoms : List Atom) : Speaks (hashAtomsBase17 H atoms) := by
  rw [hashAtomsBase17_eq]
  apply Speaks.map
  unfold hashAtoms
  split
  · exact (speaks_dumpJson _).map _
  · exact Speaks.ok _

end Atom

namespace Molecule

theorem speaks_readAtom (F : Json.FloatText) (now : Int64) (jsonAtom : Json) : Speaks (readAtom F now jsonAtom) := by
  refine (speaks_dumpJson _).bind fun text => (Atom.speaks_jsonToObject F now text).bind fun atom => ?_
  split
  · exact Speaks.error (by decide)
  · exact Speaks.ok _

theorem speaks_readAtoms (F : Json.FloatText) (now : Int64) (json : Json) : Speaks (readAtoms F now json) := by
  unfold readAtoms
  split
  · exact Speaks.ok _
  · exact Speaks.mapM (speaks_readAtom F now) _

theorem speaks_jsonToObject (F : Json.FloatText) (now : Int64) (s : ByteString) : Speaks (jsonToObject F now s) := by
  refine (speaks_parseJson F s).bind fun json => (Atom.speaks_readString _ _).bind fun _ => ?_
  refine (Atom.speaks_readOptional _ _).bind fun _ => (Atom.speaks_readString _ _).bind fun _ => ?_
  refine (Atom.speaks_readOptional _ _).bind fun _ => (speaks_readAtoms F now json).bind fun _ => ?_
  refine Speaks.bind ?_ fun _ => Speaks.ok _
  unfold readCreatedAt
  split
  · exact Speaks.ok _
  · exact (speaks_getString _).map _

theorem speaks_servedAtomToClient (F : Json.FloatText) (forcedVersion : Option ByteString) (servedAtom : Json) :
    Speaks (servedAtomToClient F forcedVersion servedAtom) := by
  unfold servedAtomToClient
  split
  · exact Speaks.error (by decide)
  · apply Speaks.map
    unfold valueMember
    split
    · exact Speaks.ok _
    · exact Speaks.ok _
    · exact (speaks_dumpJson _).map _

theorem speaks_servedToClient (F : Json.FloatText) (served : Json) (forcedVersion : Option ByteString) :
    Speaks (servedToClient F served forcedVersion) := by
  unfold servedToClient
  split
  · exact Speaks.error (by decide)
  · split
    · exact (Speaks.mapM (speaks_servedAtomToClient F forcedVersion) _).map _
    · exact Speaks.error (by decide)

theorem speaks_clientView (F : Json.FloatText) (now : Int64) (served : Json) (forcedVersion : Option ByteString) :
    Speaks (clientView F now served forcedVersion) :=
  (speaks_servedToClient F served forcedVersion).bind fun client =>
    (speaks_dumpJson client).bind fun text => speaks_jsonToObject F now text

theorem speaks_verifyMolecularHash (H : Shake256) (m : Molecule) : Speaks (verifyMolecularHash H m) := by
  unfold verifyMolecularHash
  split
  · exact (Atom.speaks_hashAtomsBase17 H _).map _
  · exact Speaks.ok _

theorem speaks_verifyOts (H : Shake256) (m : Molecule) : Speaks (verifyOts H m) := by
  have hdecode (ots : ByteString) : Speaks (decodeOts ots) := by
    unfold decodeOts
    split_ifs
    · exact Speaks.ok _
    · exact Speaks.error (by decide)
    · exact Speaks.ok _
    · exact Speaks.error (by decide)
  unfold verifyOts
  split
  · exact Speaks.error (by decide)
  · split_ifs
    · exact Speaks.error (by decide)
    · split
      · rename_i e hots
        exact Speaks.error (hdecode _ e hots)
      · split
        · exact Speaks.error (by decide)
        · exact Speaks.ok _

theorem speaks_check (H : Shake256) (m : Molecule) : Speaks (check H m) := by
  unfold check
  split
  · exact Speaks.error (by decide)
  split
  · exact Speaks.error (by decide)
  split
  · rename_i e hhash
    exact Speaks.error (speaks_verifyMolecularHash H m e hhash)
  · exact Speaks.error (by decide)
  split
  · rename_i e hots
    exact Speaks.error (speaks_verifyOts H m e hots)
  split
  · exact Speaks.ok _
  · exact Speaks.error (by decide)

end Molecule

end Errors

namespace Molecule

section Verdict

variable (F : Json.FloatText) (H : Shake256)

/-- The verdict on one view. -/
theorem verifyClient_cases (now : Int64) (served : Json) (forcedVersion : Option ByteString) :
    (∃ m, clientView F now served forcedVersion = .ok m ∧ verifyMolecularHash H m = .ok true ∧ check H m = .ok () ∧
        verifyClient F H now served forcedVersion = ({ molecularHash := some m.molecularHash, verified := true }, false)) ∨
      ((∀ m, clientView F now served forcedVersion = .ok m → check H m ≠ .ok ()) ∧
        (verifyClient F H now served forcedVersion).1.verified = false ∧
        (verifyClient F H now served forcedVersion).1.error ≠ [] ∧
        ((verifyClient F H now served forcedVersion).2 = true ↔
          ∃ m, clientView F now served forcedVersion = .ok m ∧ verifyMolecularHash H m = .ok false)) := by
  cases hview : clientView F now served forcedVersion with
  | error e =>
    have hclient : verifyClient F H now served forcedVersion = ({ error := e.what }, false) := by
      rw [verifyClient, hview]
    rw [hclient]
    exact .inr ⟨nofun, rfl, speaks_clientView F now served forcedVersion e hview, by simp⟩
  | ok m =>
    cases hhash : verifyMolecularHash H m with
    | error e =>
      have hclient : verifyClient F H now served forcedVersion =
          ({ molecularHash := if m.molecularHash = [] then none else some m.molecularHash, error := e.what }, false) := by
        rw [verifyClient, hview]
        dsimp only
        rw [hhash]
      rw [hclient]
      refine .inr ⟨?_, rfl, speaks_verifyMolecularHash H m e hhash, by simp [hhash]⟩
      rintro _ ⟨⟩ hcheck
      cases hhash.symm.trans (check_ok_iff.mp hcheck).2.2.1
    | ok valid =>
      cases valid with
      | false =>
        have hclient : verifyClient F H now served forcedVersion =
            ({ molecularHash := if m.molecularHash = [] then none else some m.molecularHash,
               error := ascii "Molecular hash mismatch" }, true) := by
          rw [verifyClient, hview]
          dsimp only
          rw [hhash]
        rw [hclient]
        refine .inr ⟨?_, rfl, show ascii "Molecular hash mismatch" ≠ [] by decide, by simp [hhash]⟩
        rintro _ ⟨⟩ hcheck
        cases hhash.symm.trans (check_ok_iff.mp hcheck).2.2.1
      | true =>
        have hne : m.molecularHash ≠ [] := (verifyMolecularHash_ok_iff.mp hhash).2.1
        cases hcheck : check H m with
        | error e =>
          have hclient : verifyClient F H now served forcedVersion =
              ({ molecularHash := some m.molecularHash, error := e.what }, false) := by
            rw [verifyClient, hview]
            dsimp only
            rw [hhash, hcheck, if_neg hne]
          rw [hclient]
          refine .inr ⟨?_, rfl, speaks_check H m e hcheck, by simp [hhash]⟩
          rintro _ ⟨⟩ hok
          cases hcheck.symm.trans hok
        | ok _ =>
          refine .inl ⟨m, rfl, hhash, hcheck, ?_⟩
          rw [verifyClient, hview]
          dsimp only
          rw [hhash, hcheck, if_neg hne]

/-- A view verifies exactly when `check` accepts it. -/
theorem verifyClient_verified_iff (now : Int64) (served : Json) (forcedVersion : Option ByteString) :
    (verifyClient F H now served forcedVersion).1.verified = true ↔
      ∃ m, clientView F now served forcedVersion = .ok m ∧ check H m = .ok () := by
  obtain ⟨m, hview, -, hcheck, hverdict⟩ | ⟨hrefused, hrejected, -, -⟩ := verifyClient_cases F H now served forcedVersion
  · rw [hverdict]
    exact iff_of_true rfl ⟨m, hview, hcheck⟩
  · rw [hrejected]
    exact iff_of_false Bool.false_ne_true fun ⟨m, hview, hcheck⟩ => hrefused m hview hcheck

/-- The retries end in the first verdict that verifies, or in the last one. -/
theorem retryVersions_cases (clock : Option ByteString → Int64) (served : Json) (versions : List String)
    (result : ServedVerification) :
    retryVersions F H clock served versions result = result ∨
      ∃ version ∈ versions, retryVersions F H clock served versions result =
        (verifyClient F H (clock (some (ascii version))) served (some (ascii version))).1 := by
  induction versions generalizing result with
  | nil => exact .inl rfl
  | cons version versions ih =>
    rw [retryVersions]
    split
    · exact .inr ⟨version, List.mem_cons_self, rfl⟩
    · obtain hlast | ⟨later, hlater, hverdict⟩ := ih
        (verifyClient F H (clock (some (ascii version))) served (some (ascii version))).1
      · exact .inr ⟨version, List.mem_cons_self, hlast⟩
      · exact .inr ⟨later, List.mem_cons_of_mem _ hlater, hverdict⟩

/-- The atoms of a served document, one of which has a version. -/
def ServesVersion (served : Json) : Prop := ∃ atoms, served.find? (ascii "atoms") = some atoms ∧ servesVersion atoms = true

/-- The verdict is that of the view as served, or, where no atom has a version, that of a forced one. -/
theorem verifyFromServerData_cases (clock : Option ByteString → Int64) (servedJson : ByteString) :
    (Json.parse F servedJson = none ∧
        verifyFromServerData F H clock servedJson = .ok { error := ascii "served molecule is not valid JSON" }) ∨
      ∃ served forcedVersion, Json.parse F servedJson = some served ∧
        verifyFromServerData F H clock servedJson = .ok (verifyClient F H (clock forcedVersion) served forcedVersion).1 ∧
        (forcedVersion = none ∨
          ¬ ServesVersion served ∧ (forcedVersion = some (ascii "4") ∨ forcedVersion = some (ascii "3"))) := by
  unfold verifyFromServerData
  cases hparse : Json.parse F servedJson with
  | none => exact .inl ⟨rfl, rfl⟩
  | some served =>
    refine .inr ?_
    dsimp only
    by_cases hfirst : ((verifyClient F H (clock none) served none).1.verified ||
        !(verifyClient F H (clock none) served none).2) = true
    · exact ⟨served, none, rfl, by rw [if_pos hfirst], .inl rfl⟩
    · rw [if_neg hfirst]
      have hmismatch : (verifyClient F H (clock none) served none).2 = true := by
        simp only [Bool.or_eq_true, Bool.not_eq_true', not_or, Bool.not_eq_false] at hfirst
        exact hfirst.2
      have hvalid := Json.parse_valid hparse
      obtain ⟨m, _, _, _, hverdict⟩ | ⟨_, _, _, hhash⟩ := verifyClient_cases F H (clock none) served none
      · rw [hverdict] at hmismatch
        cases hmismatch
      · obtain ⟨m, hview, _⟩ := hhash.mp hmismatch
        obtain ⟨servedAtoms, _, _, hfind, _⟩ := clientView_ok hvalid (by simp) hview
        rw [hfind]
        dsimp only
        by_cases hversion : servesVersion (.arr servedAtoms) = true
        · exact ⟨served, none, rfl, by rw [if_pos hversion], .inl rfl⟩
        · have hserves : ¬ ServesVersion served := by
            rintro ⟨atoms, hatoms, hserved⟩
            obtain rfl := Option.some.inj (hfind.symm.trans hatoms)
            exact hversion hserved
          rw [if_neg hversion]
          obtain hresult | ⟨version, hmem, hresult⟩ := retryVersions_cases F H clock served ["4", "3"]
            (verifyClient F H (clock none) served none).1
          · exact ⟨served, none, rfl, by rw [hresult], .inl rfl⟩
          · refine ⟨served, some (ascii version), rfl, by rw [hresult], .inr ⟨hserves, ?_⟩⟩
            simp only [List.mem_cons, List.not_mem_nil, or_false] at hmem
            obtain rfl | rfl := hmem
            · exact .inl rfl
            · exact .inr rfl

/-- Verification of served data returns a verdict for every text. A positive one is that of `check` on a view of the
text, as served or, where no atom has a version, with one of the two forced versions; a negative one says why; and
where some atom has a version, the verdict is that of `check` on the view as served. -/
theorem verifyFromServerData_sound (clock : Option ByteString → Int64) (servedJson : ByteString) :
    ∃ r, verifyFromServerData F H clock servedJson = .ok r ∧
      (r.verified = true → r.error = [] ∧ ∃ served hash forcedVersion m, Json.parse F servedJson = some served ∧
        r.molecularHash = some hash ∧ member served "molecularHash" = some (.str hash) ∧
        clientView F (clock forcedVersion) served forcedVersion = .ok m ∧ check H m = .ok () ∧
        (forcedVersion = none ∨ ¬ ServesVersion served ∧
          (forcedVersion = some (ascii "4") ∨ forcedVersion = some (ascii "3")) ∧
          ∀ a ∈ m.atoms, a.version = forcedVersion)) ∧
      (r.verified = false → r.error ≠ []) ∧
      ∀ served, Json.parse F servedJson = some served → ServesVersion served →
        r = (verifyClient F H (clock none) served none).1 ∧
          (r.verified = true ↔ ∃ m, clientView F (clock none) served none = .ok m ∧ check H m = .ok ()) := by
  obtain ⟨hparse, hresult⟩ | ⟨served, forcedVersion, hparse, hresult, hforced⟩ :=
    verifyFromServerData_cases F H clock servedJson
  · refine ⟨_, hresult, nofun, fun _ => show ascii "served molecule is not valid JSON" ≠ [] by decide, ?_⟩
    intro served hserved
    cases hparse.symm.trans hserved
  · have hvalid := Json.parse_valid hparse
    have hutf8 : ∀ version, forcedVersion = some version → Utf8.valid version = true := by
      rintro version rfl
      obtain hnone | ⟨_, hversion | hversion⟩ := hforced
      · cases hnone
      · obtain rfl := Option.some.inj hversion
        decide
      · obtain rfl := Option.some.inj hversion
        decide
    refine ⟨_, hresult, ?_, ?_, ?_⟩
    · intro hverified
      obtain ⟨m, hview, hhash, hcheck, hverdict⟩ | ⟨_, hrejected, _⟩ :=
        verifyClient_cases F H (clock forcedVersion) served forcedVersion
      · have hne := (verifyMolecularHash_ok_iff.mp hhash).2.1
        have hmember := clientView_molecularHash hvalid hutf8 hview hne
        rw [hverdict]
        refine ⟨rfl, served, m.molecularHash, forcedVersion, m, hparse, rfl, hmember, hview, hcheck, ?_⟩
        obtain hnone | ⟨hserves, hversion⟩ := hforced
        · exact .inl hnone
        · refine .inr ⟨hserves, hversion, ?_⟩
          obtain ⟨version, rfl⟩ : ∃ version, forcedVersion = some version := by
            obtain hversion | hversion := hversion <;> exact ⟨_, hversion⟩
          exact clientView_version hvalid (hutf8 version rfl) hview
      · rw [hrejected] at hverified
        cases hverified
    · intro hrejected
      obtain ⟨m, _, _, _, hverdict⟩ | ⟨_, _, herror, _⟩ :=
        verifyClient_cases F H (clock forcedVersion) served forcedVersion
      · rw [hverdict] at hrejected
        cases hrejected
      · exact herror
    · intro served' hparse' hserves
      obtain rfl := Option.some.inj (hparse.symm.trans hparse')
      obtain rfl | ⟨hnot, _⟩ := hforced
      · exact ⟨rfl, verifyClient_verified_iff F H (clock none) served none⟩
      · exact absurd hserves hnot

end Verdict

end Molecule

end KnishIO
