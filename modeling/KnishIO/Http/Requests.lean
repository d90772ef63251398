import KnishIO.Http.FailClosed

open ByteString

namespace KnishIO

namespace GraphQLClient

def continuIdQuery : ByteString :=
  ascii "query ContinuId($bundle: String, $token: String) \x7b ContinuId(bundle: $bundle, token: $token) \x7b" ++
    ascii " position address tokenSlug bundleHash pubkey characters \x7d \x7d"

def balanceQuery : ByteString :=
  ascii "query($bundleHash: String, $token: String, $type: String) \x7b" ++
    ascii " Balance(bundleHash: $bundleHash, token: $token, type: $type) \x7b" ++
    ascii " position address tokenSlug amount pubkey batchId bundleHash tokenUnits \x7b id name metas \x7d \x7d \x7d"

def proposeMoleculeMutation : ByteString :=
  ascii "mutation ProposeMolecule($molecule: MoleculeInput!) \x7b ProposeMolecule(molecule: $molecule) \x7b" ++
    ascii " molecularHash status reason payload createdAt \x7d \x7d"

end GraphQLClient

open GraphQLClient

/-- What the client hands to its HTTP client. The wallets of a molecule are left out. -/
def Request.http : Request → GraphQLClient.Request
  | .continuId bundle =>
    { query := continuIdQuery, vars := some (Json.object [(ascii "bundle", .str bundle), (ascii "token", .str (ascii "USER"))]) }
  | .balance bundleHash token buffer =>
    { query := balanceQuery
      vars := some (Json.object [(ascii "bundleHash", .str bundleHash), (ascii "token", .str token),
        (ascii "type", if buffer then .str (ascii "buffer") else .null)]) }
  | .proposeMolecule molecule =>
    { query := proposeMoleculeMutation, vars := some (Json.object [(ascii "molecule", Json.object molecule.wireMembers)]) }

theorem authorizes_molecule (molecule : Molecule) :
    authorizes (some (Json.object [(ascii "molecule", Json.object molecule.wireMembers)])) =
      decide (molecule.atoms.head?.map (·.isotope) = some (ascii "U")) := by
  have hmolecule : (Json.object [(ascii "molecule", Json.object molecule.wireMembers)]).find? (ascii "molecule") =
      some (Json.object molecule.wireMembers) := Json.find?_object_of_mem (by simp) (by simp)
  have hkeys : (molecule.wireMembers.map Prod.fst).Nodup := by
    change (["molecularHash", "cellSlug", "bundle", "status", "createdAt", "atoms"].map ascii).Nodup
    decide
  have hatoms : (Json.object molecule.wireMembers).find? (ascii "atoms") = some (.arr (molecule.atoms.map Atom.toJson)) :=
    Json.find?_object_of_mem hkeys (by simp [Molecule.wireMembers])
  rw [authorizes, Option.bind_some, hmolecule, Option.bind_some, hatoms]
  cases molecule.atoms with
  | nil => rfl
  | cons atom atoms =>
    have hisotope : atom.toJson.find? (ascii "isotope") = some (.str atom.isotope) :=
      Atom.find?_toJson (by simp [Atom.wireMembers])
    simp [Json.stringAt, hisotope]

/-- The client's own account of the bypass is what the HTTP client decides. -/
theorem shouldEncryptRequest_http (request : Request) : shouldEncryptRequest request.http = !request.bypassesCipher := by
  cases request with
  | continuId bundle =>
    have hparse : parseOperation continuIdQuery = (ascii "query", ascii "ContinuId") := by decide +kernel
    exact shouldEncryptRequest_eq_false.mpr (.inl ⟨congrArg Prod.fst hparse, .inr (congrArg Prod.snd hparse)⟩)
  | balance bundleHash token buffer =>
    have hparse : parseOperation balanceQuery = (ascii "query", ascii "Balance") := by decide +kernel
    refine Bool.eq_true_of_not_eq_false fun hplain => ?_
    rcases shouldEncryptRequest_eq_false.mp hplain with ⟨_, hname⟩ | ⟨htype, _⟩
    · rw [Request.http, hparse] at hname
      exact absurd hname (by decide)
    · rw [Request.http, hparse] at htype
      exact absurd htype (by decide +kernel)
  | proposeMolecule molecule =>
    have hparse : parseOperation proposeMoleculeMutation = (ascii "mutation", ascii "ProposeMolecule") := by decide +kernel
    have hplain : shouldEncryptRequest (Request.http (.proposeMolecule molecule)) = false ↔
        Request.bypassesCipher (.proposeMolecule molecule) = true := by
      rw [shouldEncryptRequest_eq_false, Request.http, hparse, authorizes_molecule, Request.bypassesCipher]
      constructor
      · rintro (⟨htype, _⟩ | ⟨_, hname | ⟨_, hauthorizes⟩⟩)
        · exact absurd htype (by decide +kernel)
        · exact absurd hname (by decide +kernel)
        · exact hauthorizes
      · intro hbypass
        exact .inr ⟨rfl, .inr ⟨rfl, hbypass⟩⟩
    cases hbypass : Request.bypassesCipher (.proposeMolecule molecule) with
    | true => exact hplain.mpr hbypass
    | false =>
      refine Bool.eq_true_of_not_eq_false fun h => ?_
      rw [hplain.mp h] at hbypass
      cases hbypass

/-- The client's own account of the refusal is what the HTTP client throws. -/
theorem permit_eq (transport : Transport) (request : Request) :
    transport.permit request =
      if transport.cipherEnabled = true ∧ shouldEncryptRequest request.http = true ∧ Keyless transport then
        .error (refusal transport)
      else .ok () := by
  rw [shouldEncryptRequest_http]
  cases hcipher : transport.cipherEnabled with
  | false => simp [Transport.permit, hcipher]
  | true =>
    cases hbypass : request.bypassesCipher with
    | true => simp [Transport.permit, hbypass]
    | false =>
      cases hwallet : transport.cipherWallet with
      | none => simp [Transport.permit, hcipher, hbypass, hwallet, Keyless, refusal]
      | some wallet => simp [Transport.permit, hcipher, hbypass, hwallet, Keyless, refusal]

end KnishIO
