import KnishIO.Client.LoginRuns
import KnishIO.Client.Rebinding
import KnishIO.Library.Json.Sound

open ByteString

namespace KnishIO

section Replies

/-- A GraphQL body that reports errors. -/
def reportsErrors (body : Json) : Bool :=
  match body.find? (ascii "errors") with
  | none => false
  | some (.arr errors) => !errors.isEmpty
  | some errors => !errors.isNull

/-- The pointer query failed: no success, no JSON, or GraphQL errors. -/
def Reply.failedQuery (F : Json.FloatText) (reply : Reply) : Bool :=
  !reply.isSuccess || (Json.parse F reply.body).elim true reportsErrors

/-- The errors of the reply stand beside a `data` member that is read in place of them. -/
def Reply.hidesErrors (F : Json.FloatText) (reply : Reply) : Bool :=
  reply.isSuccess && (Json.parse F reply.body).elim false fun body =>
    reportsErrors body && ((responseData body).find? (ascii "errors")).isNone

/-- A validator's verdict against the molecule. -/
def Reply.rejects (F : Json.FloatText) (reply : Reply) : Prop :=
  reply.isSuccess = true ∧ ∃ body status, Json.parse F reply.body = some body ∧
    Response.proposeMember (responseData body) "status" = some status ∧ status ≠ ascii "accepted" ∧ status ≠ ascii "success"

/-- A successful reply with neither a token nor a status. -/
def Reply.inconclusive (F : Json.FloatText) (reply : Reply) : Prop :=
  reply.isSuccess = true ∧ ∃ body, Json.parse F reply.body = some body ∧
    Response.proposeMember (responseData body) "status" = none ∧ Response.isAuthorized F (responseData body) = false

variable {F : Json.FloatText} {reply : Reply}

/-- A failed query goes unnoticed exactly when its errors are hidden. -/
theorem Reply.failedQuery_answered_iff :
    reply.failedQuery F = true ∧ (reply.continuId F).continuIdFailure = .ok none ↔ reply.hidesErrors F = true := by
  rw [failedQuery, continuId, hidesErrors, parseJson]
  cases reply.isSuccess with
  | false => simp [Response.continuIdFailure]
  | true =>
    cases Json.parse F reply.body with
    | none => simp [Response.continuIdFailure]
    | some body =>
      cases herrors : (responseData body).find? (ascii "errors") with
      | none => simp [Response.continuIdFailure, herrors]
      | some errors =>
        cases htext : dumpJson errors with
        | error e => simp [Response.continuIdFailure, herrors, htext, Except.map]
        | ok text => simp [Response.continuIdFailure, herrors, htext, Except.map]

theorem Reply.proposal_ok_iff {failure : String} {result : Response} (herror : result.error = none) :
    reply.proposal F failure = .ok result ↔
      reply.isSuccess = true ∧ ∃ body, Json.parse F reply.body = some body ∧ result = { data := responseData body } := by
  rw [proposal, parseJson]
  cases reply.isSuccess with
  | false =>
    simp only [Bool.not_false, ↓reduceIte, Bool.false_eq_true, false_and, iff_false]
    intro h
    rw [← Except.ok.inj h] at herror
    cases herror
  | true =>
    cases Json.parse F reply.body with
    | none => simp [Except.map]
    | some body => simp [Except.map, eq_comm]

/-- An answer that settles nothing is a rejection or inconclusive. -/
theorem Reply.rejects_or_inconclusive {failure : String} {first : Response} (h : reply.proposal F failure = .ok first)
    (hunsettled : first.settlesLogin F = false) : reply.rejects F ∨ reply.inconclusive F := by
  simp only [Response.settlesLogin, Bool.or_eq_false_iff, Option.isSome_eq_false_iff, Option.isNone_iff_eq_none,
    decide_eq_false_iff_not] at hunsettled
  obtain ⟨⟨⟨hauthorized, herror⟩, -⟩, haccepted⟩ := hunsettled
  obtain ⟨hsuccess, body, hbody, rfl⟩ := (proposal_ok_iff herror).mp h
  cases hstatus : Response.proposeMember (responseData body) "status" with
  | none => exact .inr ⟨hsuccess, body, hbody, hstatus, hauthorized⟩
  | some status =>
    simp only [Response.isAccepted, Response.getStatus, hstatus, Option.getD_some, Bool.or_eq_false_iff,
      decide_eq_false_iff_not] at haccepted
    exact .inl ⟨hsuccess, body, status, hbody, hstatus, haccepted.1, haccepted.2⟩

theorem Reply.inconclusive.unsettled (h : reply.inconclusive F) (failure : String) :
    ∃ first, reply.proposal F failure = .ok first ∧ first.settlesLogin F = false := by
  obtain ⟨hsuccess, body, hbody, hstatus, hauthorized⟩ := h
  refine ⟨{ data := responseData body }, (proposal_ok_iff rfl).mpr ⟨hsuccess, body, hbody, rfl⟩, ?_⟩
  have hunknown : ascii "unknown" ≠ [] ∧ ascii "unknown" ≠ ascii "accepted" ∧ ascii "unknown" ≠ ascii "success" := by decide
  simp [Response.settlesLogin, hauthorized, Response.isAccepted, Response.getStatus, hstatus, hunknown]

theorem valid_stringAt {j : Json} (hj : j.Valid F) (key : String) : Utf8.valid ((j.stringAt key).getD []) = true := by
  rw [Json.stringAt]
  cases hfound : j.find? (ascii key) with
  | none => rfl
  | some value =>
    cases value with
    | str s => exact (Json.valid_of_find? hj hfound).utf8
    | _ => rfl

theorem valid_responseData {body : Json} (hbody : body.Valid F) : (responseData body).Valid F := by
  rw [responseData]
  cases hdata : body.find? (ascii "data") with
  | none => exact hbody
  | some data =>
    dsimp only
    split_ifs
    · exact hbody
    · exact Json.valid_of_find? hbody hdata

/-- A pointer that a reply tells is UTF-8. -/
theorem Reply.utf8_userPointer {p : Response.ContinuID} (h : Response.userPointer (reply.continuId F).data = some p) :
    Utf8.valid p.position = true := by
  have hdata : (reply.continuId F).data.Valid F := by
    rw [continuId, parseJson]
    split_ifs
    · trivial
    · cases hbody : Json.parse F reply.body with
      | none => trivial
      | some body => exact valid_responseData (Json.parse_valid hbody)
  rw [Response.userPointer, Response.continuId] at h
  cases hcid : (reply.continuId F).data.find? (ascii "ContinuId") with
  | none => simp [hcid] at h
  | some cid =>
    simp only [hcid] at h
    split_ifs at h with hobject
    · dsimp only at h
      split_ifs at h
      obtain rfl := Option.some.inj h
      exact valid_stringAt (Json.valid_of_find? hdata hcid) "position"

end Replies

section Histories

/-- The molecules of a history, with the replies to them. -/
def proposals (events : List Event) : List (Molecule × Reply) :=
  events.filterMap fun
    | .proposed _ m reply => some (m, reply)
    | _ => none

theorem proposals_append (events later : List Event) : proposals (events ++ later) = proposals events ++ proposals later :=
  List.filterMap_append

theorem proposals_eq_nil {events : List Event} (h : ∀ secret m reply, .proposed secret m reply ∉ events) :
    proposals events = [] := by
  refine List.filterMap_eq_nil_iff.mpr fun e he => ?_
  cases e with
  | proposed secret m reply => exact absurd he (h secret m reply)
  | _ => rfl

variable {E : Type} {S : Setting E} {w u t : World E} {sent later : List (Molecule × Reply)}

/-- The history grows by events, of which these are the molecules. -/
def Proposes (sent : List (Molecule × Reply)) (w t : World E) : Prop :=
  ∃ events, t.log = w.log ++ events ∧ proposals events = sent

theorem Proposes.trans (h : Proposes sent w u) (h' : Proposes later u t) : Proposes (sent ++ later) w t := by
  obtain ⟨events, hevents, rfl⟩ := h
  obtain ⟨events', hevents', rfl⟩ := h'
  exact ⟨events ++ events', by rw [hevents', hevents, List.append_assoc], proposals_append _ _⟩

theorem Quiet.proposes (h : Quiet S w t) : Proposes [] w t := by
  obtain ⟨events, hlog, hasked⟩ := h.log
  refine ⟨events, hlog, proposals_eq_nil fun secret m reply hmem => ?_⟩
  obtain ⟨_, _, heq⟩ := hasked _ hmem
  cases heq

theorem Proposes.drop (h : Proposes sent w t) : proposals (t.log.drop w.log.length) = sent := by
  obtain ⟨events, hlog, hsent⟩ := h
  rw [hlog, List.drop_left, hsent]

theorem Proposes.not_quiet {first : Molecule × Reply} (h : Proposes (first :: sent) w t) : ¬ Quiet S w t := by
  intro hquiet
  have hnone := h.drop.symm.trans hquiet.proposes.drop
  cases hnone

end Histories

section Authorizations

variable {E : Type} {S : Setting E} {w u t : World E} {H : Shake256} {secret : Secret} {cellSlug : ByteString} {encrypt : Bool}
  {source remainder : Wallet} {m : Molecule} {r : Throws Response}

/-- A signed authorization molecule, in full. -/
theorem SignedBy.authorization (h : SignedBy H cellSlug source remainder (.initAuthorization source encrypt) secret m) :
    ∃ clock hash key signature,
      Atom.hashAtomsBase17 H (authorizationMolecule cellSlug clock source remainder encrypt).atoms = .ok hash ∧
      Wallet.generateWalletKey H secret.bytes source.token source.position source.otsVersion = .ok key ∧
      Molecule.oneTimeSignature H key hash true = .ok signature ∧
      m = (authorizationMolecule cellSlug clock source remainder encrypt).signed H secret.bytes false hash signature := by
  obtain ⟨clock, atoms, built, position, hrun, hsign⟩ := h
  have hbuilt := (Act.run_eq_ok.mpr hrun).symm.trans (run_initAuthorization cellSlug clock)
  obtain ⟨-, rfl⟩ := Prod.mk.inj (Except.ok.inj hbuilt)
  obtain ⟨hash, key, signature, hhash, hkey, hsig, rfl⟩ := Molecule.sign_ok_inv rfl hsign
  exact ⟨clock, hash, key, signature, hhash, hkey, hsig, rfl⟩

/-- An authorization molecule of a derived wallet passes the check. -/
theorem SignedBy.check_authorization (h : SignedBy H cellSlug source remainder (.initAuthorization source encrypt) secret m)
    (hderived : source.Derived H secret.bytes) : Molecule.check H m = .ok () := by
  obtain ⟨clock, hash, key, signature, hhash, hkey, hsig, rfl⟩ := h.authorization
  rw [Wallet.Derived, Wallet.addressAt, hkey] at hderived
  have haddress : Wallet.generateWalletAddress H key = source.address := Except.ok.inj hderived
  refine Molecule.check_signed rfl ?_ hhash hkey haddress hsig ?_
    (fun _ hhash => (Molecule.verifyTokenIsotopeV_rehashed (List.cons_ne_nil _ _) rfl hhash).trans rfl) false
  · simp [authorizationMolecule, frontMolecule, Molecule.continuIdAtom, Atom.new]
  · rw [Molecule.verifyContinuId]
    simp [authorizationMolecule, frontMolecule, Molecule.continuIdAtom, Atom.new]

/-- The first atom is that of a token's wallet at a position. -/
def Molecule.OpensAt (m : Molecule) (token position : ByteString) : Prop :=
  ∃ front rest, m.atoms = front :: rest ∧ front.token = token ∧ front.position = position

theorem SignedBy.opensAt {b : Molecule.Builder} (h : SignedBy H cellSlug source remainder b secret m)
    (hb : b.continuId = true) (hsource : b.source = source) : m.OpensAt source.token source.position := by
  obtain ⟨clock, front, hash, key, signature, hplace, htoken, -, -, -, -, -, -, rfl⟩ := h.continuId hb
  obtain ⟨fragment, rest, hfront⟩ := Molecule.exists_front_signed
    (m := { Molecule.withWallets cellSlug (clock 0) source remainder with
      atoms := [front, Molecule.continuIdAtom clock b.source remainder] }) rfl H secret.bytes false hash signature
  rw [hsource] at htoken hplace
  exact ⟨_, rest, hfront, htoken, congrArg Prod.fst hplace⟩

theorem Molecule.OpensAt.token_eq {token token' position position' : ByteString} (h : m.OpensAt token position)
    (h' : m.OpensAt token' position') : token = token' := by
  obtain ⟨front, rest, hatoms, rfl, -⟩ := h
  obtain ⟨front', rest', hatoms', rfl, -⟩ := h'
  rw [(List.cons.inj (hatoms.symm.trans hatoms')).1]

/-- An authorization molecule that is sent is the only one of its step. -/
theorem AuthorizationSigned.proposes (h : AuthorizationSigned S w u secret cellSlug encrypt source m) :
    Proposes [(m, u.verdict S m)] w (u.authorized S secret source encrypt m) := by
  obtain rfl := h.drawn
  exact ⟨[.proposed secret m _], rfl, rfl⟩

/-- From a fresh AUTH wallet nothing is sent, or one molecule, whose reply is the result. -/
theorem FreshOutcome.proposes (h : FreshOutcome S secret cellSlug encrypt w r t) :
    Proposes [] w t ∨ ∃ m reply position, Proposes [(m, reply)] w t ∧ r = reply.proposal S.floatText "Authorization request" ∧
      m.OpensAt (ascii "AUTH") position ∧ Molecule.check S.hash m = .ok () := by
  cases h with
  | failed hquiet => exact .inl hquiet.proposes
  | @sent source r t hsource hsent =>
    obtain ⟨u, m, hsigned, rfl, rfl⟩ := hsent
    obtain ⟨remainder, -, hby⟩ := hsigned.signed
    have hmade := Wallet.made_new hsource
    have hopens := hby.opensAt rfl rfl
    rw [hmade.token_eq] at hopens
    exact .inr ⟨m, u.verdict S m, source.position, hsigned.proposes, rfl, hopens, hby.check_authorization hmade.derived⟩

/-- Such a client can always sign from a fresh AUTH wallet, and does so again after a first molecule. -/
theorem fresh_proposes (hw : w.Equipped S) (hslug : Utf8.valid cellSlug = true) (secret : Secret) (encrypt : Bool) :
    ∃ sent, Proposes [sent] w ((authorizeFromFreshAuthWallet S secret cellSlug encrypt).exec w).2 := by
  obtain ⟨source, u, m, hsigned, -, hexec⟩ := authorizeFromFreshAuthWallet_sends secret encrypt hw hslug
  rw [hexec]
  exact ⟨(m, u.verdict S m), hsigned.proposes⟩

theorem AuthorizationSigned.equipped (h : AuthorizationSigned S w u secret cellSlug encrypt source m) (hw : w.Equipped S) :
    (u.authorized S secret source encrypt m).Equipped S := by
  refine ⟨hw.kem, ?_⟩
  rw [config_authorized, h.drawn]
  exact hw.parameterSet

/-- A login of such a client always sends something. -/
theorem login_proposes (hw : w.Equipped S) (hslug : Utf8.valid cellSlug = true) (secret : Secret) (encrypt : Bool)
    {pointer : Option Response.ContinuID}
    (hpointer : ∀ p, pointer = some p → p.position ≠ [] ∧ Utf8.valid p.position = true) :
    ∃ first rest, Proposes (first :: rest) w ((login S secret cellSlug encrypt pointer).exec w).2 := by
  obtain ⟨sent, hfresh⟩ := fresh_proposes hw hslug secret encrypt
  cases pointer with
  | none => exact ⟨sent, [], hfresh⟩
  | some p =>
    obtain ⟨hposition, hutf8⟩ := hpointer p rfl
    obtain ⟨found, hfound, hversions⟩ : ∃ found, pointerOtsVersion S w.client.config secret p = .ok found ∧
        ∀ v, found = some v → v = 1 ∨ v = 2 := by
      rw [pointerOtsVersion]
      split_ifs with haddress
      · exact ⟨_, rfl, fun v hv => Option.some.inj hv ▸ w.client.config.otsVersion_checked⟩
      · obtain ⟨found, hfound, hdetects⟩ := Wallet.detectOtsVersion_detects S.hash secret.bytes (ascii "USER")
          w.client.config.otsVersion_checked hposition haddress
        exact ⟨found, hfound, fun v hv => ((hdetects.some_iff v).mp hv).1.inv.1⟩
    have hlogin : (login S secret cellSlug encrypt (some p)).exec w = _ :=
      (exec_bind_of_ok (Act.exec_get w)).trans (exec_bind_of_ok (by rw [Act.exec_ofExcept, hfound]))
    cases found with
    | none =>
      rw [hlogin]
      exact ⟨sent, [], hfresh⟩
    | some version =>
      have hversion := hversions version rfl
      obtain ⟨source, hsource⟩ := Wallet.new_exists (H := S.hash) hw.kem (ascii "USER") secret.nonempty hposition
        hw.parameterSet hversion
      obtain ⟨u, m, hsigned, -, hexec⟩ := proposeAuthorization_sends encrypt hw hversion (Wallet.made_new hsource) rfl hutf8 hslug
      have hsent := hsigned.proposes
      rw [hlogin]
      dsimp only
      rw [exec_bind_of_ok (exec_newWallet_at hposition hsource), Act.exec_bind, hexec]
      cases (u.verdict S m).proposal S.floatText "Authorization request" with
      | error e => exact ⟨_, _, hsent⟩
      | ok first =>
        simp only [Act.andThen_ok]
        split_ifs
        · exact ⟨_, _, hsent⟩
        · obtain ⟨second, hsecond⟩ := fresh_proposes (hsigned.equipped hw) hslug secret encrypt
          exact ⟨_, _, hsent.trans hsecond⟩

end Authorizations

section Rules

variable {E : Type} {S : Setting E} {w u t : World E} {secret : Secret} {cellSlug : ByteString} {encrypt : Bool}
  {r : Throws Response} {events : List Event}

/-- The molecule is signed at the USER pointer that the first reply told. -/
def SignsAtPointer (F : Json.FloatText) (events : List Event) (m : Molecule) : Prop :=
  ∃ bundle reply pointer, lookup events = some (.continuId bundle, reply) ∧
    Response.userPointer (reply.continuId F).data = some pointer ∧ m.OpensAt (ascii "USER") pointer.position

/-- What a login call may send, and what it returns. -/
structure LoginRules (S : Setting E) (events : List Event) (r : Throws Response) : Prop where
  atMostTwo : (proposals events).length ≤ 2
  unanswered : ∀ bundle reply, lookup events = some (.continuId bundle, reply) → reply.failedQuery S.floatText = true →
    proposals events = []
  fallback : ∀ first second, proposals events = [first, second] →
    SignsAtPointer S.floatText events first.1 ∧ first.2.rejects S.floatText
  unchanged : ∀ first rest, proposals events = first :: rest →
    ¬ (SignsAtPointer S.floatText events first.1 ∧ first.2.rejects S.floatText) →
    rest = [] ∧ r = first.2.proposal S.floatText "Authorization request"
  checked : ∀ sent ∈ proposals events, Molecule.check S.hash sent.1 = .ok ()

/-- The pointer query hides no errors, and the molecule at the pointer is answered with a token, a status or a
failure. -/
structure Conclusive (F : Json.FloatText) (events : List Event) : Prop where
  answered : ∀ bundle reply, lookup events = some (.continuId bundle, reply) → reply.hidesErrors F = false
  judged : ∀ first rest, proposals events = first :: rest → SignsAtPointer F events first.1 → ¬ first.2.inconclusive F

theorem LoginRules.silent (h : proposals events = []) : LoginRules S events r where
  atMostTwo := by simp [h]
  unanswered := fun _ _ _ _ => h
  fallback := by simp [h]
  unchanged := by simp [h]
  checked := by simp [h]

theorem Conclusive.silent (h : proposals events = [])
    (hanswered : ∀ bundle reply, lookup events = some (.continuId bundle, reply) → reply.hidesErrors S.floatText = false) :
    Conclusive S.floatText events where
  answered := hanswered
  judged := by simp [h]

/-- One molecule was sent after a query that did not fail; its reply is the result. -/
theorem LoginRules.single {sent : Molecule × Reply} (h : proposals events = [sent])
    (hanswered : ∀ bundle reply, lookup events = some (.continuId bundle, reply) → reply.failedQuery S.floatText = false)
    (hresult : r = sent.2.proposal S.floatText "Authorization request")
    (hcheck : Molecule.check S.hash sent.1 = .ok ()) : LoginRules S events r where
  atMostTwo := by simp [h]
  unanswered := fun bundle reply hlookup hfailed => by simp [hanswered bundle reply hlookup] at hfailed
  fallback := by simp [h]
  unchanged := fun first rest hsent _ => by
    obtain ⟨rfl, rfl⟩ := List.cons.inj (h.symm.trans hsent)
    exact ⟨rfl, hresult⟩
  checked := by simpa [h] using hcheck

/-- A molecule at the pointer was rejected, and at most one more was sent. -/
theorem LoginRules.rejected {first : Molecule × Reply} {rest : List (Molecule × Reply)} (h : proposals events = first :: rest)
    (hrest : rest.length ≤ 1)
    (hanswered : ∀ bundle reply, lookup events = some (.continuId bundle, reply) → reply.failedQuery S.floatText = false)
    (hpointer : SignsAtPointer S.floatText events first.1) (hrejected : first.2.rejects S.floatText)
    (hcheck : ∀ sent ∈ first :: rest, Molecule.check S.hash sent.1 = .ok ()) : LoginRules S events r where
  atMostTwo := by
    rw [h, List.length_cons]
    omega
  unanswered := fun bundle reply hlookup hfailed => by simp [hanswered bundle reply hlookup] at hfailed
  fallback := fun first' second hsent => by
    obtain ⟨rfl, -⟩ := List.cons.inj (h.symm.trans hsent)
    exact ⟨hpointer, hrejected⟩
  unchanged := fun first' rest' hsent hnot => by
    obtain ⟨rfl, -⟩ := List.cons.inj (h.symm.trans hsent)
    exact absurd ⟨hpointer, hrejected⟩ hnot
  checked := by
    rw [h]
    exact hcheck

/-- The history of a login call. -/
def loginEvents (S : Setting E) (w : World E) (given cellSlug : Option ByteString) (encrypt : Bool) : List Event :=
  ((requestAuthToken S given cellSlug encrypt).exec w).2.log.drop w.log.length

/-- The answer to the pointer query counts, as far as its errors are not hidden. -/
theorem Conclusive.not_failed {bundle : ByteString} {reply : Reply} (h : Conclusive S.floatText events)
    (hlookup : lookup events = some (.continuId bundle, reply))
    (hanswered : (reply.continuId S.floatText).continuIdFailure = .ok none) :
    ∀ bundle reply, lookup events = some (.continuId bundle, reply) → reply.failedQuery S.floatText = false := by
  intro bundle' reply' hlookup'
  obtain ⟨-, rfl⟩ := Prod.mk.inj (Option.some.inj (hlookup.symm.trans hlookup'))
  have hhides := h.answered bundle' reply hlookup'
  rw [Bool.eq_false_iff] at hhides ⊢
  exact fun hfailed => hhides (Reply.failedQuery_answered_iff.mp ⟨hfailed, hanswered⟩)

/-- The login after an answered query keeps the rules when the replies are conclusive, and only then where the
client can always send. -/
theorem login_rules {bundle : ByteString} {reply : Reply} (hlookup : lookup events = some (.continuId bundle, reply))
    (hanswered : (reply.continuId S.floatText).continuIdFailure = .ok none) {r : Throws Response}
    (hexec : (login S secret cellSlug encrypt (Response.userPointer (reply.continuId S.floatText).data)).exec w = (r, t))
    (hsent : ∀ sent, Proposes sent w t → proposals events = sent) :
    (Conclusive S.floatText events → LoginRules S events r) ∧
      (w.Equipped S → Utf8.valid cellSlug = true → LoginRules S events r → Conclusive S.floatText events) := by
  have hposition (p : Response.ContinuID) (hp : Response.userPointer (reply.continuId S.floatText).data = some p) :
      p.position ≠ [] ∧ Utf8.valid p.position = true := ⟨userPointer_position hp, Reply.utf8_userPointer hp⟩
  -- a client that can always send has sent something, so that a failed query was noticed
  have hconclusive (hw : w.Equipped S) (hslug : Utf8.valid cellSlug = true) (hrules : LoginRules S events r)
      (hjudged : ∀ first rest, proposals events = first :: rest → SignsAtPointer S.floatText events first.1 →
        ¬ first.2.inconclusive S.floatText) : Conclusive S.floatText events := by
    refine ⟨fun bundle' reply' hlookup' => ?_, hjudged⟩
    obtain ⟨first, rest, hfirst⟩ := login_proposes hw hslug secret encrypt hposition
    rw [hexec] at hfirst
    rw [Bool.eq_false_iff]
    intro hhides
    have hnone := hrules.unanswered bundle' reply' hlookup' (Reply.failedQuery_answered_iff.mpr hhides).1
    cases hnone.symm.trans (hsent _ hfirst)
  obtain ⟨e, t', hcase, hquiet⟩ | ⟨-, hcase⟩ | ⟨p, source, u, m, hp, hsource, hsigned, hdecided⟩ :=
    login_cases S w secret cellSlug encrypt (Response.userPointer (reply.continuId S.floatText).data)
      fun p hp => (hposition p hp).1
  · obtain ⟨rfl, rfl⟩ := Prod.mk.inj (hexec.symm.trans hcase)
    have hnone := hsent _ hquiet.proposes
    exact ⟨fun _ => .silent hnone, fun hw hslug hrules => hconclusive hw hslug hrules (by simp [hnone])⟩
  · -- from a fresh AUTH wallet one molecule is sent, whatever the answer
    have houtcome := authorizeFromFreshAuthWallet_outcome S w secret cellSlug encrypt
    rw [← hcase, hexec] at houtcome
    obtain hnone | ⟨m, answer, position, hone, hresult, hopens, hcheck⟩ := houtcome.proposes
    · have hnone := hsent _ hnone
      exact ⟨fun _ => .silent hnone, fun hw hslug hrules => hconclusive hw hslug hrules (by simp [hnone])⟩
    · have hone := hsent _ hone
      refine ⟨fun h => .single hone (h.not_failed hlookup hanswered) hresult hcheck, fun hw hslug hrules =>
        hconclusive hw hslug hrules fun first rest hfirst hpointer => ?_⟩
      obtain ⟨rfl, -⟩ := List.cons.inj (hone.symm.trans hfirst)
      obtain ⟨_, _, _, -, -, hopens'⟩ := hpointer
      exact absurd (hopens.token_eq hopens') (by decide)
  · obtain ⟨remainder, -, hby⟩ := hsigned.signed
    obtain ⟨version, -, hnew⟩ := hsource.ledger
    have hmade := Wallet.made_new hnew
    have hcheck := hby.check_authorization hmade.derived
    have hpointer : SignsAtPointer S.floatText events m := by
      have hopens := hby.opensAt rfl rfl
      rw [hmade.token_eq, hmade.position_eq] at hopens
      exact ⟨bundle, reply, p, hlookup, hp, hopens⟩
    obtain ⟨hsettles, hcase⟩ | ⟨first, hfirst, hunsettled, hcase⟩ := hdecided
    · obtain ⟨rfl, rfl⟩ := Prod.mk.inj (hexec.symm.trans hcase)
      have hone := hsent _ hsigned.proposes
      refine ⟨fun h => .single hone (h.not_failed hlookup hanswered) rfl hcheck, fun hw hslug hrules =>
        hconclusive hw hslug hrules fun first rest hfirst _ hinconclusive => ?_⟩
      obtain ⟨rfl, -⟩ := List.cons.inj (hone.symm.trans hfirst)
      obtain ⟨result, hresult, hunsettled⟩ := hinconclusive.unsettled "Authorization request"
      cases hunsettled.symm.trans (hsettles result hresult)
    · have hjudge := Reply.rejects_or_inconclusive hfirst hunsettled
      have houtcome := authorizeFromFreshAuthWallet_outcome S (u.authorized S secret source encrypt m) secret cellSlug encrypt
      rw [← hcase, hexec] at houtcome
      refine ⟨fun h => ?_, fun hw hslug hrules => hconclusive hw hslug hrules fun first rest hfirst _ hinconclusive => ?_⟩
      · have hrejected (rest : List (Molecule × Reply)) (hall : proposals events = (m, u.verdict S m) :: rest) :
            (u.verdict S m).rejects S.floatText :=
          hjudge.resolve_right (h.judged _ rest hall hpointer)
        obtain hnone | ⟨second, answer, position, hone, -, -, hcheck'⟩ := houtcome.proposes
        · have hall := hsent _ (hsigned.proposes.trans hnone)
          exact .rejected hall (Nat.zero_le _) (h.not_failed hlookup hanswered) hpointer (hrejected _ hall)
            (by simpa using hcheck)
        · have hall := hsent _ (hsigned.proposes.trans hone)
          exact .rejected hall le_rfl (h.not_failed hlookup hanswered) hpointer (hrejected _ hall)
            (by simpa using ⟨hcheck, hcheck'⟩)
      · -- the second molecule shows that the first answer was taken for a rejection
        obtain ⟨second, hsecond⟩ := fresh_proposes (hsigned.equipped hw) hslug secret encrypt
        rw [← hcase, hexec] at hsecond
        have hall := hsent _ (hsigned.proposes.trans hsecond)
        obtain ⟨rfl, -⟩ := List.cons.inj (hall.symm.trans hfirst)
        obtain ⟨-, -, body, status, hbody, hstatus, -⟩ := hrules.fallback _ _ hall
        obtain ⟨-, body', hbody', hstatus', -⟩ := hinconclusive
        obtain rfl := Option.some.inj (hbody.symm.trans hbody')
        cases hstatus.symm.trans hstatus'

theorem Identified.config {given : Option ByteString} (h : Identified S given w u secret) :
    u.client.config = w.client.config := by
  obtain ⟨-, rfl⟩ | ⟨_, _, -, -, -, rfl⟩ := h.step
  · rfl
  · rfl

/-- The molecules of a login call are those after its pointer query. -/
theorem Identified.proposes {given : Option ByteString} {bundle : ByteString} {sent : List (Molecule × Reply)}
    (hu : Identified S given w u secret) (h : Proposes sent (u.asked S (.continuId bundle)) t) :
    proposals (t.log.drop w.log.length) = sent := by
  obtain ⟨later, hlater, rfl⟩ := h
  obtain ⟨first, hfirst, hdrop, -⟩ := hu.history hlater
  rw [hdrop]
  obtain rfl | rfl := hfirst
  · rfl
  · rfl

/-- Every login call keeps the rules of the protocol when its replies are conclusive, and a client that can always
send keeps them only then. -/
theorem requestAuthToken_protocol (S : Setting E) (w : World E) (given cellSlug : Option ByteString) (encrypt : Bool) :
    (Conclusive S.floatText (loginEvents S w given cellSlug encrypt) →
      LoginRules S (loginEvents S w given cellSlug encrypt) ((requestAuthToken S given cellSlug encrypt).exec w).1) ∧
    (w.Equipped S → Utf8.valid (cellSlug.getD (w.client.config.cellSlug.getD [])) = true →
      LoginRules S (loginEvents S w given cellSlug encrypt) ((requestAuthToken S given cellSlug encrypt).exec w).1 →
      Conclusive S.floatText (loginEvents S w given cellSlug encrypt)) := by
  -- nothing is asked before the secret and the bundle are there
  obtain ⟨first, hfirst, hnone⟩ := log_useSecret S given w
  have hsilent {u : World E} (hlog : u.log = w.log ++ first) :
      proposals (u.log.drop w.log.length) = [] ∧ lookup (u.log.drop w.log.length) = none := by
    rw [hlog, List.drop_left]
    obtain rfl | ⟨secret, rfl⟩ := hnone
    · exact ⟨rfl, rfl⟩
    · exact ⟨rfl, rfl⟩
  rw [loginEvents]
  rcases huse : (useSecret S given).exec w with ⟨e | _, u⟩
  · obtain ⟨hsent, hlookup⟩ := hsilent (show u.log = _ by rw [← hfirst, huse])
    rw [requestAuthToken, Act.exec_bind, huse, Act.andThen_error]
    exact ⟨fun _ => .silent hsent, fun _ _ _ => .silent hsent (by simp [hlookup])⟩
  obtain ⟨secret, hu⟩ := identified_of_useSecret huse
  obtain ⟨-, e, hexec⟩ | ⟨bundle, -, hcases⟩ := requestAuthToken_cases S hu huse cellSlug encrypt
  · obtain ⟨hsent, hlookup⟩ := hsilent (show u.log = _ by rw [← hfirst, huse])
    rw [hexec]
    exact ⟨fun _ => .silent hsent, fun _ _ _ => .silent hsent (by simp [hlookup])⟩
  -- a failure that is noticed ends the call after the query
  have hfailed (hnot : ((S.serve (.continuId bundle) u.env).1.continuId S.floatText).continuIdFailure ≠ .ok none) :
      proposals ((u.asked S (.continuId bundle)).log.drop w.log.length) = [] ∧
        ∀ bundle' reply, lookup ((u.asked S (.continuId bundle)).log.drop w.log.length) = some (.continuId bundle', reply) →
          reply.hidesErrors S.floatText = false := by
    refine ⟨hu.proposes (Quiet.refl (S := S)).proposes, fun bundle' reply h => ?_⟩
    obtain ⟨-, -, -, hlookup⟩ := hu.history (List.append_nil _).symm
    obtain ⟨-, rfl⟩ := Prod.mk.inj (Option.some.inj (hlookup.symm.trans h))
    rw [Bool.eq_false_iff]
    exact fun hhides => hnot (Reply.failedQuery_answered_iff.mpr hhides).2
  obtain ⟨e, hfailure, hexec⟩ | ⟨message, hfailure, hexec⟩ | ⟨hanswered, hexec⟩ := hcases
  · obtain ⟨hsent, hquery⟩ := hfailed (by simp [hfailure])
    rw [hexec]
    exact ⟨fun _ => .silent hsent, fun _ _ _ => .silent hsent hquery⟩
  · obtain ⟨hsent, hquery⟩ := hfailed (by simp [hfailure])
    rw [hexec]
    exact ⟨fun _ => .silent hsent, fun _ _ _ => .silent hsent hquery⟩
  · rcases hlogin : (login S secret (cellSlug.getD (u.client.config.cellSlug.getD [])) encrypt
      (Response.userPointer ((S.serve (.continuId bundle) u.env).1.continuId S.floatText).data)).exec
        (u.asked S (.continuId bundle)) with ⟨r, t⟩
    rw [hexec, hlogin]
    have houtcome := login_outcome S (u.asked S (.continuId bundle)) secret
      (cellSlug.getD (u.client.config.cellSlug.getD [])) encrypt
      (Response.userPointer ((S.serve (.continuId bundle) u.env).1.continuId S.floatText).data)
      fun p hp => userPointer_position hp
    rw [hlogin] at houtcome
    obtain ⟨later, hlater, -⟩ := houtcome.posts given cellSlug
    obtain ⟨-, -, -, hlookup⟩ := hu.history hlater
    rw [← hu.config]
    obtain ⟨hkeeps, honly⟩ := login_rules hlookup hanswered hlogin fun sent => hu.proposes
    refine ⟨hkeeps, fun hw => honly ⟨hw.kem, ?_⟩⟩
    change u.client.config.mlKemParameterSet = 768 ∨ u.client.config.mlKemParameterSet = 1024
    rw [hu.config]
    exact hw.parameterSet

section Example

/-- The bundle of the sample client. -/
def sampleBundle : ByteString := List.replicate 64 48

/-- A client with a secret, whose node answers with these replies. -/
def loginWorld (replies : List Reply) : World (List Reply) := { client := sampleClient, env := replies }

theorem equipped_loginWorld (replies : List Reply) : (loginWorld replies).Equipped scripted := ⟨fun _ _ => ⟨[], rfl⟩, .inr rfl⟩

def unknownBundle : Reply := ⟨200, ascii "\x7b\"data\":\x7b\"ContinuId\":null\x7d\x7d"⟩

/-- The same with an error beside it. -/
def failedLookup : Reply := ⟨200, ascii "\x7b\"data\":\x7b\"ContinuId\":null\x7d,\"errors\":[\x7b\x7d]\x7d"⟩

def knownBundle : Reply :=
  ⟨200, ascii "\x7b\"data\":\x7b\"ContinuId\":\x7b\"tokenSlug\":\"USER\",\"position\":\"0a\"\x7d\x7d\x7d"⟩

def acceptance : Reply := ⟨200, ascii "\x7b\"data\":\x7b\"ProposeMolecule\":\x7b\"status\":\"accepted\"\x7d\x7d\x7d"⟩

/-- A GraphQL error in place of a verdict. -/
def noVerdict : Reply := ⟨200, ascii "\x7b\"errors\":[\x7b\x7d]\x7d"⟩

/-- A client that is told of no pointer sends one molecule. -/
theorem loginEvents_pointerless {reply : Reply} (answer : Reply)
    (hanswered : (reply.continuId integersOnly).continuIdFailure = .ok none)
    (hpointer : Response.userPointer (reply.continuId integersOnly).data = none) :
    ∃ m, loginEvents scripted (loginWorld [reply, answer]) none none false =
      [.asked (.continuId sampleBundle) reply, .proposed sampleSecret m answer] := by
  obtain ⟨source, u, m, rfl, -, -, hexec⟩ := requestAuthToken_sends none false reply (S := scripted)
    (equipped_loginWorld [reply, answer]) rfl rfl rfl hanswered hpointer rfl
  rw [loginEvents, hexec]
  exact ⟨m, rfl⟩

theorem inconclusive_noVerdict : noVerdict.inconclusive integersOnly := by
  have hread : (Json.parse integersOnly noVerdict.body).map (fun body =>
      (Response.proposeMember (responseData body) "status", Response.isAuthorized integersOnly (responseData body))) =
        some (none, false) := by decide +kernel
  obtain ⟨body, hbody, hpair⟩ := Option.map_eq_some_iff.mp hread
  obtain ⟨hstatus, hauthorized⟩ := Prod.mk.inj hpair
  exact ⟨rfl, body, hbody, hstatus, hauthorized⟩

/-- A client that is told of a pointer sends a second molecule when its first one gets no verdict. -/
theorem proposals_noVerdict : ∃ m second,
    proposals (loginEvents scripted (loginWorld [knownBundle, noVerdict, acceptance]) none none false) =
      [(m, noVerdict), second] := by
  have hu : Identified scripted none (loginWorld [knownBundle, noVerdict, acceptance])
      (loginWorld [knownBundle, noVerdict, acceptance]) sampleSecret := ⟨.inl ⟨rfl, rfl⟩, rfl⟩
  have hw : ((loginWorld [knownBundle, noVerdict, acceptance]).asked scripted (.continuId sampleBundle)).Equipped scripted :=
    ⟨fun _ _ => ⟨[], rfl⟩, .inr rfl⟩
  obtain ⟨hanswered, hpointer⟩ : (knownBundle.continuId integersOnly).continuIdFailure = .ok none ∧
      Response.userPointer (knownBundle.continuId integersOnly).data = some ⟨[], ascii "0a", []⟩ := by decide +kernel
  have hposition (p : Response.ContinuID) (hp : some (⟨[], ascii "0a", []⟩ : Response.ContinuID) = some p) :
      p.position ≠ [] ∧ Utf8.valid p.position = true := by
    obtain rfl := Option.some.inj hp
    exact ⟨by decide, by decide⟩
  have hexec : (requestAuthToken scripted none none false).exec (loginWorld [knownBundle, noVerdict, acceptance]) =
      (login scripted sampleSecret [] false (some ⟨[], ascii "0a", []⟩)).exec
        ((loginWorld [knownBundle, noVerdict, acceptance]).asked scripted (.continuId sampleBundle)) := by
    obtain ⟨hbundle, -⟩ | ⟨bundle, hbundle, hcases⟩ := requestAuthToken_cases scripted hu rfl none false
    · cases hbundle
    · obtain rfl : sampleBundle = bundle := Option.some.inj hbundle
      rw [← hpointer]
      obtain ⟨e, hfailure, -⟩ | ⟨message, hfailure, -⟩ | ⟨-, hexec⟩ := hcases
      · cases hanswered.symm.trans hfailure
      · cases hanswered.symm.trans hfailure
      · exact hexec
  have hslug : Utf8.valid [] = true := rfl
  obtain ⟨first, rest, hfirst⟩ := login_proposes hw hslug sampleSecret false hposition
  obtain ⟨e, t, hcase, hquiet⟩ | ⟨hnone, -⟩ | ⟨p, source, u, m, hp, hsource, hsigned, hdecided⟩ :=
    login_cases scripted _ sampleSecret [] false _ fun p hp => (hposition p hp).1
  · rw [hcase] at hfirst
    exact absurd hquiet hfirst.not_quiet
  · have hversion := hnone _ rfl
    rw [pointerOtsVersion, if_pos rfl] at hversion
    cases hversion
  · have hverdict : u.verdict scripted m = noVerdict := by
      rw [hsigned.drawn]
      rfl
    obtain ⟨hsettles, -⟩ | ⟨first, -, -, hcase⟩ := hdecided
    · obtain ⟨result, hresult, hunsettled⟩ := inconclusive_noVerdict.unsettled "Authorization request"
      rw [hverdict] at hsettles
      cases hunsettled.symm.trans (hsettles result hresult)
    · obtain ⟨second, hsecond⟩ := fresh_proposes (hsigned.equipped hw) hslug sampleSecret false
      rw [← hcase, ← hexec] at hsecond
      have hsent := hu.proposes (hsigned.proposes.trans hsecond)
      rw [hverdict] at hsent
      exact ⟨m, second, hsent⟩

theorem requestAuthToken_protocol_unknownBundle :
    LoginRules scripted (loginEvents scripted (loginWorld [unknownBundle, acceptance]) none none false)
      ((requestAuthToken scripted none none false).exec (loginWorld [unknownBundle, acceptance])).1 := by
  refine (requestAuthToken_protocol scripted _ none none false).1 ?_
  obtain ⟨hanswered, hpointer⟩ : (unknownBundle.continuId integersOnly).continuIdFailure = .ok none ∧
      Response.userPointer (unknownBundle.continuId integersOnly).data = none := by decide +kernel
  obtain ⟨m, hevents⟩ := loginEvents_pointerless acceptance hanswered hpointer
  rw [hevents]
  refine ⟨fun bundle reply hlookup => ?_, fun first rest hfirst _ => ?_⟩
  · obtain ⟨-, rfl⟩ := Prod.mk.inj (Option.some.inj hlookup)
    decide +kernel
  · obtain ⟨rfl, -⟩ := List.cons.inj hfirst
    rintro ⟨-, body, hbody, hstatus, -⟩
    have haccepted : (Json.parse integersOnly acceptance.body).bind
        (fun body => Response.proposeMember (responseData body) "status") = some (ascii "accepted") := by decide +kernel
    rw [show Json.parse integersOnly acceptance.body = some body from hbody, Option.bind_some, hstatus] at haccepted
    cases haccepted

/-- A failed lookup is taken for an unknown bundle, and a missing verdict for a rejection. -/
theorem failed_answers_send :
    ¬ LoginRules scripted (loginEvents scripted (loginWorld [failedLookup, acceptance]) none none false)
        ((requestAuthToken scripted none none false).exec (loginWorld [failedLookup, acceptance])).1 ∧
      ¬ LoginRules scripted (loginEvents scripted (loginWorld [knownBundle, noVerdict, acceptance]) none none false)
        ((requestAuthToken scripted none none false).exec (loginWorld [knownBundle, noVerdict, acceptance])).1 := by
  constructor
  · intro hrules
    obtain ⟨hanswered, hpointer, hfailed⟩ : (failedLookup.continuId integersOnly).continuIdFailure = .ok none ∧
        Response.userPointer (failedLookup.continuId integersOnly).data = none ∧
          failedLookup.failedQuery integersOnly = true := by decide +kernel
    obtain ⟨m, hevents⟩ := loginEvents_pointerless acceptance hanswered hpointer
    rw [hevents] at hrules
    cases hrules.unanswered sampleBundle failedLookup rfl hfailed
  · intro hrules
    obtain ⟨m, second, hall⟩ := proposals_noVerdict
    obtain ⟨-, -, body, status, hbody, hstatus, -⟩ := hrules.fallback _ _ hall
    obtain ⟨-, body', hbody', hstatus', -⟩ := inconclusive_noVerdict
    obtain rfl := Option.some.inj (hbody.symm.trans hbody')
    cases hstatus.symm.trans hstatus'

end Example

end Rules

end KnishIO
