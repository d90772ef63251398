import KnishIO.Client.Signers
import KnishIO.Molecule.ContinuId

open ByteString

namespace KnishIO

variable {E : Type} {S : Setting E} {w t : World E} {secret : Secret} {cellSlug : ByteString} {encrypt : Bool}
  {source : Wallet}

/-- The reply to a molecule. -/
def World.verdict (S : Setting E) (w : World E) (m : Molecule) : Reply := (S.serve (.proposeMolecule m) w.env).1

/-- The state after an authorization molecule was sent and the session was bound to its reply. -/
def World.authorized (S : Setting E) (w : World E) (secret : Secret) (source : Wallet) (encrypt : Bool) (m : Molecule) :
    World E :=
  { w.proposed S secret m with
    client := ((w.verdict S m).payload S.floatText).elim w.client (w.client.bindSession source encrypt) }

theorem config_authorized (S : Setting E) (u : World E) (secret : Secret) (source : Wallet) (encrypt : Bool) (m : Molecule) :
    (u.authorized S secret source encrypt m).client.config = u.client.config := by
  simp only [World.authorized]
  cases (u.verdict S m).payload S.floatText with
  | none => rfl
  | some payload =>
    simp only [Option.elim_some, Client.bindSession, Client.setEncryption]
    cases payload.stringAt "token" <;> cases payload.stringAt "key" <;> rfl

/-- An authorization molecule that is about to be sent from a state, with the state it is sent from. -/
structure AuthorizationSigned (S : Setting E) (w u : World E) (secret : Secret) (cellSlug : ByteString)
    (encrypt : Bool) (source : Wallet) (m : Molecule) : Prop where
  drawn : u = { w with drawn := w.drawn + 1 }
  signed : ∃ remainder,
    Wallet.new S.hash S.kem secret.bytes (ascii "USER") (S.draw w.drawn).bytes w.client.config.mlKemParameterSet
      (w.client.config.successorOtsVersion source.otsVersion) = .ok remainder ∧
    SignedBy S.hash cellSlug source remainder (.initAuthorization source encrypt) secret m

/-- An authorization molecule was sent; the reply is the result. -/
def Authorizes (S : Setting E) (secret : Secret) (cellSlug : ByteString) (encrypt : Bool) (source : Wallet) (w : World E)
    (r : Throws Response) (t : World E) : Prop :=
  ∃ u m, AuthorizationSigned S w u secret cellSlug encrypt source m ∧
    r = (u.verdict S m).proposal S.floatText "Authorization request" ∧ t = u.authorized S secret source encrypt m

/-- The first atom of a signed molecule stands at the place of its source. -/
theorem SignedBy.front {H : Shake256} {remainder : Wallet} {b : Molecule.Builder} {m : Molecule}
    (h : SignedBy H cellSlug source remainder b secret m) :
    ∃ front rest, m.atoms = front :: rest ∧ front.place = b.source.place := by
  obtain ⟨clock, atoms, built, position, hrun, hsign⟩ := h
  obtain ⟨new, hbuilt, hplaces, hnew⟩ := b.writes_run clock (some remainder) _ atoms built rfl hrun
  have hatoms : built.atoms = new := by
    rw [hbuilt]
    exact List.nil_append new
  have hhead := Molecule.Builder.head?_places (some remainder) b
  rw [← hplaces] at hhead
  cases hnil : new with
  | nil => simp [hnil] at hhead
  | cons first others =>
    have hsplit : built.atoms = first :: others := hatoms.trans hnil
    obtain ⟨hash, key, signature, _, _, _, rfl⟩ := Molecule.sign_ok_inv hsplit hsign
    obtain ⟨fragment, rest, hfront⟩ := Molecule.exists_front_signed hsplit H secret.bytes false hash signature
    refine ⟨_, _, hfront, ?_⟩
    rw [hnil] at hhead
    exact Option.some.inj hhead

/-- A signed molecule with a ContinuID atom, in full. -/
theorem SignedBy.continuId {H : Shake256} {remainder : Wallet} {b : Molecule.Builder} {m : Molecule}
    (h : SignedBy H cellSlug source remainder b secret m) (hb : b.continuId = true) :
    ∃ (clock : Nat → Int64) (front : Atom) (hash key signature : ByteString),
      front.place = b.source.place ∧ front.token = b.source.token ∧ front.isotope = ascii b.frontIsotope ∧
      front.otsFragment = [] ∧ front.version = none ∧
      Atom.hashAtomsBase17 H [front, Molecule.continuIdAtom clock b.source remainder] = .ok hash ∧
      Wallet.generateWalletKey H secret.bytes front.token front.position source.otsVersion = .ok key ∧
      Molecule.oneTimeSignature H key hash true = .ok signature ∧
      m = Molecule.signed H secret.bytes false hash signature
        { Molecule.withWallets cellSlug (clock 0) source remainder with
          atoms := [front, Molecule.continuIdAtom clock b.source remainder] } := by
  obtain ⟨clock, atoms, built, position, hrun, hsign⟩ := h
  obtain ⟨front, hplace, htoken, hisotope, hfragment, hversion, rfl⟩ := Molecule.continuId_run hb rfl rfl hrun
  obtain ⟨hash, key, signature, hhash, hkey, hsig, rfl⟩ := Molecule.sign_ok_inv rfl hsign
  exact ⟨clock, front, hash, key, signature, hplace, htoken, hisotope, hfragment, hversion, hhash, hkey, hsig, rfl⟩

/-- The atoms of such a molecule, up to their fragments. -/
theorem SignedBy.atoms {H : Shake256} {remainder : Wallet} {b : Molecule.Builder} {m : Molecule}
    (h : SignedBy H cellSlug source remainder b secret m) (hb : b.continuId = true) :
    ∃ front continuId : Atom, m.atoms = [front, continuId] ∧ front.isotope = ascii b.frontIsotope ∧
      continuId.isotope = ascii "I" ∧ continuId.place = remainder.place := by
  obtain ⟨clock, front, hash, key, signature, _, _, hisotope, _, _, _, _, _, rfl⟩ := h.continuId hb
  simp only [Molecule.signed]
  cases hfragments : Molecule.fragmentsFor
    { Molecule.withWallets cellSlug (clock 0) source remainder with
      atoms := [front, Molecule.continuIdAtom clock b.source remainder] } signature with
  | nil => exact ⟨front, _, rfl, hisotope, rfl, rfl⟩
  | cons f fs =>
    cases fs with
    | nil => exact ⟨_, _, rfl, hisotope, rfl, rfl⟩
    | cons f' fs => exact ⟨_, _, rfl, hisotope, rfl, rfl⟩

/-- Authorization molecules are never encrypted. -/
theorem AuthorizationSigned.permit {u : World E} {m : Molecule} (h : AuthorizationSigned S w u secret cellSlug encrypt source m)
    (transport : Transport) : transport.permit (.proposeMolecule m) = .ok () := by
  obtain ⟨remainder, _, hsigned⟩ := h.signed
  obtain ⟨front, continuId, hatoms, hisotope, _⟩ := hsigned.atoms rfl
  have hbypass : (Request.proposeMolecule m).bypassesCipher = true := by
    simp only [Request.bypassesCipher, hatoms, List.head?_cons, Option.map_some, hisotope, decide_eq_true_eq]
    rfl
  simp [Transport.permit, hbypass]

/-- A signed authorization molecule that can be written is sent, and the session is bound to the reply. -/
theorem exec_proposeAuthorization {remainder : Wallet} {built m : Molecule} {position text : ByteString}
    (hremainder : (newWallet S secret (ascii "USER") [] w.client.config.mlKemParameterSet
      (w.client.config.successorOtsVersion source.otsVersion)).exec w = (.ok remainder, { w with drawn := w.drawn + 1 }))
    (hbuilt : (assemble S cellSlug source remainder (.initAuthorization source encrypt)).exec { w with drawn := w.drawn + 1 } =
      (.ok built, { w with drawn := w.drawn + 1 }))
    (hsign : (Molecule.sign S.hash secret.bytes).run built = .ok (position, m)) (htext : m.toJson = .ok text) :
    ∃ u, AuthorizationSigned S w u secret cellSlug encrypt source m ∧
      (proposeAuthorization S secret cellSlug encrypt source).exec w =
        ((u.verdict S m).proposal S.floatText "Authorization request", u.authorized S secret source encrypt m) := by
  obtain ⟨-, atoms, hrun⟩ := assemble_ok hbuilt
  obtain ⟨_, hdrawn, hnew⟩ | ⟨hne, _⟩ := newWallet_ok hremainder
  swap
  · exact absurd rfl hne
  have hsigned : AuthorizationSigned S w { w with drawn := w.drawn + 1 } secret cellSlug encrypt source m :=
    ⟨rfl, remainder, hnew, _, atoms, built, position, hrun, Act.run_eq_ok.mp hsign⟩
  refine ⟨_, hsigned, ?_⟩
  simp only [proposeAuthorization, Act.exec_bind, Act.exec_get, Act.andThen_ok, hremainder, hbuilt, Act.exec_ofExcept, hsign,
    htext, mutate, exec_exchange, hsigned.permit]
  -- the reply is bound only where it parses; a reply that does not parse has no payload either
  have hnone {e : Exception}
      (h : (({ w with drawn := w.drawn + 1 } : World E).verdict S m).proposal S.floatText "Authorization request" = .error e) :
      (({ w with drawn := w.drawn + 1 } : World E).verdict S m).payload S.floatText = none := by
    unfold Reply.proposal parseJson at h
    unfold Reply.payload
    split_ifs at h ⊢ with hsuccess
    cases hparse : Json.parse S.floatText (({ w with drawn := w.drawn + 1 } : World E).verdict S m).body with
    | none => rfl
    | some body => simp [hparse, Except.map] at h
  cases hresult : (({ w with drawn := w.drawn + 1 } : World E).verdict S m).proposal S.floatText "Authorization request" with
  | error e =>
    have hpayload := hnone hresult
    simp only [World.verdict] at hresult
    simp only [hresult, Act.andThen_error, World.authorized, hpayload, Option.elim_none]
    rfl
  | ok result =>
    simp only [World.verdict] at hresult
    simp only [hresult, Act.andThen_ok, Act.exec_bind, Act.exec_modify, Act.exec_pure]
    rfl

/-- Either something throws before a molecule is sent, or one is sent. -/
theorem proposeAuthorization_cases (S : Setting E) (w : World E) (secret : Secret) (cellSlug : ByteString) (encrypt : Bool)
    (source : Wallet) :
    (∃ e t, (proposeAuthorization S secret cellSlug encrypt source).exec w = (.error e, t) ∧ Quiet S w t) ∨
    Authorizes S secret cellSlug encrypt source w ((proposeAuthorization S secret cellSlug encrypt source).exec w).1
      ((proposeAuthorization S secret cellSlug encrypt source).exec w).2 := by
  have hmoves := moves_newWallet (S := S) secret (ascii "USER") [] w.client.config.mlKemParameterSet
    (w.client.config.successorOtsVersion source.otsVersion) w
  rcases hremainder : (newWallet S secret (ascii "USER") [] w.client.config.mlKemParameterSet
    (w.client.config.successorOtsVersion source.otsVersion)).exec w with ⟨e | remainder, u⟩
  · rw [hremainder] at hmoves
    refine .inl ⟨e, u, ?_, hmoves⟩
    simp only [proposeAuthorization, Act.exec_bind, Act.exec_get, Act.andThen_ok, hremainder, Act.andThen_error]
  rw [hremainder] at hmoves
  obtain ⟨_, rfl, _⟩ | ⟨hne, _⟩ := newWallet_ok hremainder
  swap
  · exact absurd rfl hne
  rcases hbuilt : (assemble S cellSlug source remainder (.initAuthorization source encrypt)).exec
    { w with drawn := w.drawn + 1 } with ⟨e | built, v⟩
  · have hassemble := moves_assemble (S := S) cellSlug source remainder (.initAuthorization source encrypt)
      { w with drawn := w.drawn + 1 }
    rw [hbuilt] at hassemble
    refine .inl ⟨e, v, ?_, hmoves.trans hassemble⟩
    simp only [proposeAuthorization, Act.exec_bind, Act.exec_get, Act.andThen_ok, hremainder, hbuilt, Act.andThen_error]
  obtain ⟨rfl, -, -⟩ := assemble_ok hbuilt
  rcases hsign : (Molecule.sign S.hash secret.bytes).run built with e | ⟨position, m⟩
  · refine .inl ⟨e, _, ?_, hmoves⟩
    simp only [proposeAuthorization, Act.exec_bind, Act.exec_get, Act.andThen_ok, hremainder, hbuilt, Act.exec_ofExcept, hsign,
      Act.andThen_error]
  cases htext : m.toJson with
  | error e =>
    refine .inl ⟨e, _, ?_, hmoves⟩
    simp only [proposeAuthorization, Act.exec_bind, Act.exec_get, Act.andThen_ok, hremainder, hbuilt, Act.exec_ofExcept, hsign,
      htext, Act.andThen_error]
  | ok text =>
    obtain ⟨u, hsigned, hexec⟩ := exec_proposeAuthorization hremainder hbuilt hsign htext
    exact .inr ⟨u, m, hsigned, by rw [hexec], by rw [hexec]⟩

/-- The outcome of a login from a fresh AUTH wallet. -/
inductive FreshOutcome (S : Setting E) (secret : Secret) (cellSlug : ByteString) (encrypt : Bool) (w : World E) :
    Throws Response → World E → Prop where
  | failed {e : Exception} {t : World E} : Quiet S w t → FreshOutcome S secret cellSlug encrypt w (.error e) t
  | sent {source : Wallet} {r : Throws Response} {t : World E}
      (hsource : Wallet.new S.hash S.kem secret.bytes (ascii "AUTH") (S.draw w.drawn).bytes
        w.client.config.mlKemParameterSet w.client.config.otsVersion = .ok source)
      (hsent : Authorizes S secret cellSlug encrypt source { w with drawn := w.drawn + 1 } r t) :
      FreshOutcome S secret cellSlug encrypt w r t

theorem authorizeFromFreshAuthWallet_outcome (S : Setting E) (w : World E) (secret : Secret) (cellSlug : ByteString)
    (encrypt : Bool) :
    FreshOutcome S secret cellSlug encrypt w ((authorizeFromFreshAuthWallet S secret cellSlug encrypt).exec w).1
      ((authorizeFromFreshAuthWallet S secret cellSlug encrypt).exec w).2 := by
  have hmoves := moves_newWallet (S := S) secret (ascii "AUTH") [] w.client.config.mlKemParameterSet
    w.client.config.otsVersion w
  simp only [authorizeFromFreshAuthWallet, Act.exec_bind, Act.exec_get, Act.andThen_ok]
  rcases hsource : (newWallet S secret (ascii "AUTH") [] w.client.config.mlKemParameterSet
    w.client.config.otsVersion).exec w with ⟨e | source, u⟩
  · rw [hsource] at hmoves
    exact .failed hmoves
  rw [hsource] at hmoves
  obtain ⟨_, rfl, hnew⟩ | ⟨hne, _⟩ := newWallet_ok hsource
  · obtain ⟨e, t, hexec, hquiet⟩ | hsent :=
      proposeAuthorization_cases S { w with drawn := w.drawn + 1 } secret cellSlug encrypt source
    · rw [Act.andThen_ok, hexec]
      exact .failed (hmoves.trans hquiet)
    · exact .sent hnew hsent
  · exact absurd rfl hne

/-- The wallet at a pointer that this secret derives. -/
structure PointerSource (S : Setting E) (w : World E) (secret : Secret) (pointer : Response.ContinuID) (source : Wallet) :
    Prop where
  position : pointer.position ≠ []
  ledger : ∃ version, pointerOtsVersion S w.client.config secret pointer = .ok (some version) ∧
    Wallet.new S.hash S.kem secret.bytes (ascii "USER") pointer.position w.client.config.mlKemParameterSet version =
      .ok source

/-- The outcome of a login once the pointer query was answered. -/
inductive LoginOutcome (S : Setting E) (secret : Secret) (cellSlug : ByteString) (encrypt : Bool) (w : World E)
    (pointer : Option Response.ContinuID) : Throws Response → World E → Prop where
  | failed {e : Exception} {t : World E} : Quiet S w t → LoginOutcome S secret cellSlug encrypt w pointer (.error e) t
  | fresh {r : Throws Response} {t : World E}
      (hpointer : ∀ p, pointer = some p → pointerOtsVersion S w.client.config secret p = .ok none)
      (houtcome : FreshOutcome S secret cellSlug encrypt w r t) : LoginOutcome S secret cellSlug encrypt w pointer r t
  | settled {p : Response.ContinuID} {source : Wallet} {r : Throws Response} {t : World E}
      (hpointer : pointer = some p) (hsource : PointerSource S w secret p source)
      (hsent : Authorizes S secret cellSlug encrypt source w r t)
      (hsettles : ∀ result, r = .ok result → result.settlesLogin S.floatText = true) :
      LoginOutcome S secret cellSlug encrypt w pointer r t
  | fallback {p : Response.ContinuID} {source : Wallet} {first : Response} {u : World E} {r : Throws Response} {t : World E}
      (hpointer : pointer = some p) (hsource : PointerSource S w secret p source)
      (hsent : Authorizes S secret cellSlug encrypt source w (.ok first) u)
      (hrejected : first.settlesLogin S.floatText = false) (houtcome : FreshOutcome S secret cellSlug encrypt u r t) :
      LoginOutcome S secret cellSlug encrypt w pointer r t

/-- A login throws before it sends anything, runs as one from a fresh AUTH wallet, or sends a molecule from the
pointer, whose answer decides between the two. -/
theorem login_cases (S : Setting E) (w : World E) (secret : Secret) (cellSlug : ByteString) (encrypt : Bool)
    (pointer : Option Response.ContinuID) (hpointer : ∀ p, pointer = some p → p.position ≠ []) :
    (∃ e t, (login S secret cellSlug encrypt pointer).exec w = (.error e, t) ∧ Quiet S w t) ∨
    ((∀ p, pointer = some p → pointerOtsVersion S w.client.config secret p = .ok none) ∧
      (login S secret cellSlug encrypt pointer).exec w = (authorizeFromFreshAuthWallet S secret cellSlug encrypt).exec w) ∨
    ∃ p source u m, pointer = some p ∧ PointerSource S w secret p source ∧
      AuthorizationSigned S w u secret cellSlug encrypt source m ∧
      ((∀ first, (u.verdict S m).proposal S.floatText "Authorization request" = .ok first →
          first.settlesLogin S.floatText = true) ∧
        (login S secret cellSlug encrypt pointer).exec w =
          ((u.verdict S m).proposal S.floatText "Authorization request", u.authorized S secret source encrypt m) ∨
      ∃ first, (u.verdict S m).proposal S.floatText "Authorization request" = .ok first ∧
        first.settlesLogin S.floatText = false ∧
        (login S secret cellSlug encrypt pointer).exec w =
          (authorizeFromFreshAuthWallet S secret cellSlug encrypt).exec (u.authorized S secret source encrypt m)) := by
  cases pointer with
  | none => exact .inr (.inl ⟨by simp, rfl⟩)
  | some p =>
    simp only [login, Act.exec_bind, Act.exec_get, Act.andThen_ok, Act.exec_ofExcept]
    cases hversion : pointerOtsVersion S w.client.config secret p with
    | error e => exact .inl ⟨e, w, rfl, .refl⟩
    | ok version =>
      cases version with
      | none =>
        refine .inr (.inl ⟨fun q hq => ?_, rfl⟩)
        obtain rfl := Option.some.inj hq
        exact hversion
      | some version =>
        have hmoves := moves_newWallet (S := S) secret (ascii "USER") p.position w.client.config.mlKemParameterSet
          version w
        simp only [Act.andThen_ok, Act.exec_bind]
        rcases hsource : (newWallet S secret (ascii "USER") p.position w.client.config.mlKemParameterSet version).exec w with
          ⟨e | source, u⟩
        · rw [hsource] at hmoves
          exact .inl ⟨e, u, rfl, hmoves⟩
        obtain ⟨hempty, _⟩ | ⟨hposition, rfl, hnew⟩ := newWallet_ok hsource
        · exact absurd hempty (hpointer p rfl)
        have hledger : PointerSource S u secret p source := ⟨hposition, version, hversion, hnew⟩
        simp only [Act.andThen_ok, Act.exec_bind]
        obtain ⟨e, t, hexec, hquiet⟩ | ⟨v, m, hsigned, hresult, hstate⟩ :=
          proposeAuthorization_cases S u secret cellSlug encrypt source
        · rw [hexec]
          exact .inl ⟨e, t, rfl, hquiet⟩
        have hexec : (proposeAuthorization S secret cellSlug encrypt source).exec u =
            ((v.verdict S m).proposal S.floatText "Authorization request", v.authorized S secret source encrypt m) :=
          Prod.ext hresult hstate
        refine .inr (.inr ⟨p, source, v, m, rfl, hledger, hsigned, ?_⟩)
        rw [hexec]
        cases hfirst : (v.verdict S m).proposal S.floatText "Authorization request" with
        | error e => exact .inl ⟨by simp, rfl⟩
        | ok first =>
          simp only [Act.andThen_ok]
          cases hsettles : first.settlesLogin S.floatText with
          | true =>
            refine .inl ⟨fun result h => ?_, rfl⟩
            obtain rfl := Except.ok.inj h
            exact hsettles
          | false => exact .inr ⟨first, rfl, hsettles, rfl⟩

theorem login_outcome (S : Setting E) (w : World E) (secret : Secret) (cellSlug : ByteString) (encrypt : Bool)
    (pointer : Option Response.ContinuID) (hpointer : ∀ p, pointer = some p → p.position ≠ []) :
    LoginOutcome S secret cellSlug encrypt w pointer ((login S secret cellSlug encrypt pointer).exec w).1
      ((login S secret cellSlug encrypt pointer).exec w).2 := by
  obtain ⟨e, t, hexec, hquiet⟩ | ⟨hnone, hexec⟩ | ⟨p, source, u, m, hp, hsource, hsigned, hdecided⟩ :=
    login_cases S w secret cellSlug encrypt pointer hpointer
  · rw [hexec]
    exact .failed hquiet
  · rw [hexec]
    exact .fresh hnone (authorizeFromFreshAuthWallet_outcome S w secret cellSlug encrypt)
  · obtain ⟨hsettles, hexec⟩ | ⟨first, hfirst, hrejected, hexec⟩ := hdecided
    · rw [hexec]
      exact .settled hp hsource ⟨u, m, hsigned, rfl, rfl⟩ hsettles
    · rw [hexec]
      exact .fallback hp hsource ⟨u, m, hsigned, hfirst.symm, rfl⟩ hrejected
        (authorizeFromFreshAuthWallet_outcome S _ secret cellSlug encrypt)

/-- A pointer that a login uses has a position. -/
theorem userPointer_position {data : Json} {p : Response.ContinuID} (h : Response.userPointer data = some p) :
    p.position ≠ [] := by
  unfold Response.userPointer at h
  split at h
  · cases h
  · split at h
    next hposition =>
      obtain rfl := Option.some.inj h
      exact hposition.1
    · cases h

section RequestAuthToken

/-- The state once a secret was assigned. -/
def World.identified (w : World E) (secret : Secret) : World E :=
  { w with client := { w.client with secret := some secret }, log := w.log ++ [.identified secret] }

/-- The state after `setSecret`. -/
def World.secretSet (S : Setting E) (w : World E) (secret : Secret) : World E :=
  { w.identified secret with
    client := { (w.identified secret).client with bundle := some (Wallet.generateBundleHash S.hash secret.bytes) }
    drawn := w.drawn + 1 }

/-- The outcome of `setSecret`; when the wallet constructor throws, the new secret stands beside the old
bundle. -/
inductive SetSecretOutcome (S : Setting E) (secret : ByteString) (w : World E) : Throws Unit → World E → Prop where
  | invalid {e : Exception} (hsecret : Secret.ofBytes secret = .error e) : SetSecretOutcome S secret w (.error e) w
  | failed {held : Secret} {e : Exception} {t : World E} (hsecret : Secret.ofBytes secret = .ok held)
      (hwallet : Wallet.new S.hash S.kem held.bytes (ascii "USER") (S.draw w.drawn).bytes
        w.client.config.mlKemParameterSet w.client.config.otsVersion = .error e)
      (hquiet : Quiet S (w.identified held) t) : SetSecretOutcome S secret w (.error e) t
  | set {held : Secret} {wallet : Wallet} (hsecret : Secret.ofBytes secret = .ok held)
      (hwallet : Wallet.new S.hash S.kem held.bytes (ascii "USER") (S.draw w.drawn).bytes
        w.client.config.mlKemParameterSet w.client.config.otsVersion = .ok wallet) :
      SetSecretOutcome S secret w (.ok ()) (w.secretSet S held)

theorem Secret.ofBytes_bytes (secret : Secret) : Secret.ofBytes secret.bytes = .ok secret := by
  rw [Secret.ofBytes, dif_neg secret.nonempty, dif_pos secret.hex]

theorem setSecret_outcome (S : Setting E) (w : World E) (secret : ByteString) :
    SetSecretOutcome S secret w ((setSecret S secret).exec w).1 ((setSecret S secret).exec w).2 := by
  simp only [setSecret, Act.exec_bind, Act.exec_ofExcept]
  cases hsecret : Secret.ofBytes secret with
  | error e => exact .invalid hsecret
  | ok held =>
    simp only [Act.andThen_ok, Act.exec_bind, Act.exec_modify, Act.exec_get, newWallet, randomHex, ↓reduceIte, Act.exec_set,
      Act.exec_pure, Act.exec_ofExcept]
    cases hwallet : Wallet.new S.hash S.kem held.bytes (ascii "USER") (S.draw w.drawn).bytes
      w.client.config.mlKemParameterSet w.client.config.otsVersion with
    | error e => exact .failed hsecret hwallet (.draw .refl)
    | ok wallet => exact .set hsecret hwallet

/-- The state in which the pointer query is sent. -/
structure Identified (S : Setting E) (given : Option ByteString) (w u : World E) (secret : Secret) : Prop where
  step : (given = none ∧ u = w) ∨ ∃ bytes wallet, given = some bytes ∧ Secret.ofBytes bytes = .ok secret ∧
    Wallet.new S.hash S.kem secret.bytes (ascii "USER") (S.draw w.drawn).bytes w.client.config.mlKemParameterSet
      w.client.config.otsVersion = .ok wallet ∧ u = w.secretSet S secret
  secret_eq : u.client.secret = some secret

/-- The outcome of a login call. -/
inductive AuthOutcome (S : Setting E) (given cellSlug : Option ByteString) (encrypt : Bool) (w : World E) :
    Throws Response → World E → Prop where
  | unidentified {e : Exception} {t : World E}
      (hstep : (given = none ∧ w.client.secret = none ∧ t = w) ∨
        ∃ bytes, given = some bytes ∧ SetSecretOutcome S bytes w (.error e) t) :
      AuthOutcome S given cellSlug encrypt w (.error e) t
  | unbundled {e : Exception} {u : World E} {secret : Secret} (hu : Identified S given w u secret)
      (hbundle : u.client.bundle = none) : AuthOutcome S given cellSlug encrypt w (.error e) u
  | unwritable {e : Exception} {u : World E} {secret : Secret} {bundle : ByteString} (hu : Identified S given w u secret)
      (hbundle : u.client.bundle = some bundle)
      (hfailure : ((S.serve (.continuId bundle) u.env).1.continuId S.floatText).continuIdFailure = .error e) :
      AuthOutcome S given cellSlug encrypt w (.error e) (u.asked S (.continuId bundle))
  | queryFailed {u : World E} {secret : Secret} {bundle message : ByteString} (hu : Identified S given w u secret)
      (hbundle : u.client.bundle = some bundle)
      (hfailure : ((S.serve (.continuId bundle) u.env).1.continuId S.floatText).continuIdFailure = .ok (some message)) :
      AuthOutcome S given cellSlug encrypt w (.ok { error := some message }) (u.asked S (.continuId bundle))
  | login {u : World E} {secret : Secret} {bundle : ByteString} {r : Throws Response} {t : World E}
      (hu : Identified S given w u secret) (hbundle : u.client.bundle = some bundle)
      (hanswered : ((S.serve (.continuId bundle) u.env).1.continuId S.floatText).continuIdFailure = .ok none)
      (houtcome : LoginOutcome S secret (cellSlug.getD (u.client.config.cellSlug.getD [])) encrypt
        (u.asked S (.continuId bundle))
        (Response.userPointer ((S.serve (.continuId bundle) u.env).1.continuId S.floatText).data) r t) :
      AuthOutcome S given cellSlug encrypt w r t

theorem queryContinuId_exec (S : Setting E) (w : World E) (bundle : ByteString) :
    (queryContinuId S bundle).exec w =
      (.ok ((S.serve (.continuId bundle) w.env).1.continuId S.floatText), w.asked S (.continuId bundle)) := by
  simp only [queryContinuId, Act.exec_tryCatch, Act.exec_bind, query, exec_exchange, permit_continuId, Act.andThen_ok,
    Act.exec_pure]
  rfl

/-- A login call with its secret in place stops without a bundle or at a pointer query that failed, or goes on with what
the query told. -/
theorem requestAuthToken_cases (S : Setting E) {given : Option ByteString} {w u : World E} {secret : Secret}
    (hu : Identified S given w u secret) (huse : (useSecret S given).exec w = (.ok (), u)) (cellSlug : Option ByteString)
    (encrypt : Bool) :
    (u.client.bundle = none ∧ ∃ e, (requestAuthToken S given cellSlug encrypt).exec w = (.error e, u)) ∨
    ∃ bundle, u.client.bundle = some bundle ∧
      ((∃ e, ((S.serve (.continuId bundle) u.env).1.continuId S.floatText).continuIdFailure = .error e ∧
          (requestAuthToken S given cellSlug encrypt).exec w = (.error e, u.asked S (.continuId bundle))) ∨
        (∃ message, ((S.serve (.continuId bundle) u.env).1.continuId S.floatText).continuIdFailure = .ok (some message) ∧
          (requestAuthToken S given cellSlug encrypt).exec w =
            (.ok { error := some message }, u.asked S (.continuId bundle))) ∨
        ((S.serve (.continuId bundle) u.env).1.continuId S.floatText).continuIdFailure = .ok none ∧
          (requestAuthToken S given cellSlug encrypt).exec w =
            (login S secret (cellSlug.getD (u.client.config.cellSlug.getD [])) encrypt
              (Response.userPointer ((S.serve (.continuId bundle) u.env).1.continuId S.floatText).data)).exec
                (u.asked S (.continuId bundle))) := by
  have hsecret : (secretValue : Run E Secret).exec u = (.ok secret, u) := by
    simp only [secretValue, Act.exec_bind, Act.exec_get, Act.andThen_ok, hu.secret_eq, Act.exec_pure]
  simp only [requestAuthToken, Act.exec_bind, huse, Act.andThen_ok, hsecret, Act.exec_get]
  cases hbundle : u.client.bundle with
  | none =>
    have hget : (getBundle : Run E ByteString).exec u =
        (.error (.knishio (ascii "No bundle available - secret must be set first")), u) := by
      simp only [getBundle, Act.exec_bind, Act.exec_get, Act.andThen_ok, hbundle, Act.exec_throw]
    rw [hget]
    exact .inl ⟨rfl, _, rfl⟩
  | some bundle =>
    have hget : (getBundle : Run E ByteString).exec u = (.ok bundle, u) := by
      simp only [getBundle, Act.exec_bind, Act.exec_get, Act.andThen_ok, hbundle, Act.exec_pure]
    refine .inr ⟨bundle, rfl, ?_⟩
    simp only [hget, Act.andThen_ok, Act.exec_bind, queryContinuId_exec, Act.exec_ofExcept]
    cases hfailure : ((S.serve (.continuId bundle) u.env).1.continuId S.floatText).continuIdFailure with
    | error e => exact .inl ⟨e, rfl, rfl⟩
    | ok failure =>
      cases failure with
      | some message => exact .inr (.inl ⟨message, rfl, rfl⟩)
      | none => exact .inr (.inr ⟨rfl, rfl⟩)

/-- The part of a login call after the secret is in place. -/
theorem requestAuthToken_identified (S : Setting E) {given cellSlug : Option ByteString} {encrypt : Bool} {w u : World E}
    {secret : Secret} (hu : Identified S given w u secret) (huse : (useSecret S given).exec w = (.ok (), u)) :
    AuthOutcome S given cellSlug encrypt w ((requestAuthToken S given cellSlug encrypt).exec w).1
      ((requestAuthToken S given cellSlug encrypt).exec w).2 := by
  obtain ⟨hbundle, e, hexec⟩ | ⟨bundle, hbundle, hcases⟩ := requestAuthToken_cases S hu huse cellSlug encrypt
  · rw [hexec]
    exact .unbundled hu hbundle
  · obtain ⟨e, hfailure, hexec⟩ | ⟨message, hfailure, hexec⟩ | ⟨hanswered, hexec⟩ := hcases
    · rw [hexec]
      exact .unwritable hu hbundle hfailure
    · rw [hexec]
      exact .queryFailed hu hbundle hfailure
    · rw [hexec]
      exact .login hu hbundle hanswered (login_outcome S _ secret _ encrypt _ fun p hp => userPointer_position hp)

/-- A first step that succeeds puts a secret in place. -/
theorem identified_of_useSecret {given : Option ByteString} {w u : World E} (huse : (useSecret S given).exec w = (.ok (), u)) :
    ∃ secret, Identified S given w u secret := by
  cases given with
  | none =>
    simp only [useSecret, Act.exec_bind, Act.exec_get, Act.andThen_ok] at huse
    cases hsecret : w.client.secret with
    | none => simp [hsecret, Act.require] at huse
    | some secret =>
      simp only [hsecret, Option.isSome_some, Act.require, ↓reduceIte, Act.exec_pure] at huse
      obtain ⟨-, rfl⟩ := Prod.mk.inj huse
      exact ⟨secret, .inl ⟨rfl, rfl⟩, hsecret⟩
  | some bytes =>
    have houtcome := setSecret_outcome S w bytes
    rw [show (setSecret S bytes).exec w = (.ok (), u) from huse] at houtcome
    cases houtcome with
    | @set held wallet hsecret hwallet => exact ⟨held, .inr ⟨bytes, wallet, rfl, hsecret, hwallet, rfl⟩, rfl⟩

theorem useSecret_error {given : Option ByteString} {w t : World E} {e : Exception}
    (huse : (useSecret S given).exec w = (.error e, t)) :
    (given = none ∧ w.client.secret = none ∧ t = w) ∨ ∃ bytes, given = some bytes ∧ SetSecretOutcome S bytes w (.error e) t := by
  cases given with
  | none =>
    simp only [useSecret, Act.exec_bind, Act.exec_get, Act.andThen_ok] at huse
    cases hsecret : w.client.secret with
    | none =>
      simp only [hsecret, Option.isSome_none, Act.require, Bool.false_eq_true, ↓reduceIte, Act.exec_throw] at huse
      exact .inl ⟨rfl, rfl, (Prod.mk.inj huse).2.symm⟩
    | some secret => simp [hsecret, Act.require] at huse
  | some bytes =>
    have houtcome := setSecret_outcome S w bytes
    rw [show (setSecret S bytes).exec w = (.error e, t) from huse] at houtcome
    exact .inr ⟨bytes, rfl, houtcome⟩

/-- The first step writes at most the new secret into the history. -/
theorem log_useSecret (S : Setting E) (given : Option ByteString) (w : World E) :
    ∃ first, ((useSecret S given).exec w).2.log = w.log ++ first ∧ (first = [] ∨ ∃ secret, first = [.identified secret]) := by
  cases given with
  | none =>
    refine ⟨[], ?_, .inl rfl⟩
    simp only [useSecret, Act.exec_bind, Act.exec_get, Act.andThen_ok]
    cases w.client.secret with
    | none => simp [Act.require]
    | some secret => simp [Act.require]
  | some bytes =>
    simp only [useSecret, setSecret, Act.exec_bind, Act.exec_ofExcept]
    cases Secret.ofBytes bytes with
    | error e => exact ⟨[], by simp, .inl rfl⟩
    | ok held =>
      refine ⟨[.identified held], ?_, .inr ⟨held, rfl⟩⟩
      simp only [Act.andThen_ok, Act.exec_bind, Act.exec_modify, Act.exec_get, newWallet, randomHex, ↓reduceIte, Act.exec_set,
        Act.exec_pure, Act.exec_ofExcept]
      cases Wallet.new S.hash S.kem held.bytes (ascii "USER") (S.draw w.drawn).bytes
        w.client.config.mlKemParameterSet w.client.config.otsVersion with
      | error e => rfl
      | ok wallet => rfl

theorem requestAuthToken_outcome (S : Setting E) (w : World E) (given cellSlug : Option ByteString) (encrypt : Bool) :
    AuthOutcome S given cellSlug encrypt w ((requestAuthToken S given cellSlug encrypt).exec w).1
      ((requestAuthToken S given cellSlug encrypt).exec w).2 := by
  rcases huse : (useSecret S given).exec w with ⟨e | _, u⟩
  · simp only [requestAuthToken, Act.exec_bind, huse, Act.andThen_error]
    exact .unidentified (useSecret_error huse)
  · obtain ⟨secret, hu⟩ := identified_of_useSecret huse
    exact requestAuthToken_identified S hu huse

end RequestAuthToken

end KnishIO
