import KnishIO.Client.LoginProtocol

open ByteString

namespace KnishIO

/-- Where the validator expects the next molecule of an identity. -/
structure Head where
  position : ByteString
  address : ByteString

/-- The version at which the address of a head is derived. -/
def Head.DerivedAt (H : Shake256) (secret : Secret) (h : Head) (v : Int) : Prop :=
  Wallet.Derives H secret.bytes (ascii "USER") h.position h.address v

/-- The head that a molecule announces: the place of its ContinuID atom. -/
def Molecule.nextHead (m : Molecule) : Option Head :=
  (m.atoms.find? fun a => a.isotope = ascii "I").map fun a => ⟨a.position, a.walletAddress⟩

/-- A reply that states a head, or that there is none. -/
def Reply.Reports (F : Json.FloatText) (reply : Reply) : Option Head → Prop
  | none => reply.row F "ContinuId" = none
  | some h => ∃ cid, reply.row F "ContinuId" = some cid ∧ cid.stringAt "position" = some h.position ∧
      cid.stringAt "address" = some h.address ∧ cid.stringAt "tokenSlug" = some (ascii "USER")

/-- A node that keeps the heads of an identity, the current one last: it accepts or rejects each molecule as it
likes, and a pointer query that it answers is told the current head. -/
structure Validator {E : Type} (S : Setting E) where
  heads : E → List Head
  asked : ∀ request e, request.isQuery = true → heads (S.serve request e).2 = heads e
  proposed : ∀ m e, heads (S.serve (.proposeMolecule m) e).2 = heads e ∨
    ∃ h, m.nextHead = some h ∧ heads (S.serve (.proposeMolecule m) e).2 = heads e ++ [h]
  truthful : ∀ bundle e, (S.serve (.continuId bundle) e).1.failedQuery S.floatText = false →
    (S.serve (.continuId bundle) e).1.Reports S.floatText (heads e).getLast?

/-- A call that one of the clients makes, from whatever state that client is in. -/
structure Turn where
  client : Client
  op : Op

/-- A login or a USER operation with the secret of the identity. -/
def Turn.Shares (secret : Secret) (turn : Turn) : Prop :=
  match turn.op with
  | .requestAuthToken given _ _ => given = some secret.bytes ∨ given = none ∧ turn.client.secret = some secret
  | .createToken _ _ _ _ | .createWallet _ | .createMeta _ _ _ | .claimShadowWallet _ _ | .replenishToken _ _ _ =>
    turn.client.secret = some secret
  | _ => False

section Turns

variable {E : Type} (S : Setting E)

def takeTurn (w : World E) (turn : Turn) : World E := applyOp S turn.op { w with client := turn.client }

/-- The state after a run of turns. -/
def takeTurns (w : World E) (turns : List Turn) : World E := turns.foldl (takeTurn S) w

/-- Every turn of a run meets a condition in the state it starts from. -/
def EachTurn (P : World E → Turn → Prop) : World E → List Turn → Prop
  | _, [] => True
  | w, turn :: turns => P w turn ∧ EachTurn P (takeTurn S w turn) turns

/-- The history of a turn. -/
def turnEvents (w : World E) (turn : Turn) : List Event := (takeTurn S w turn).log.drop w.log.length

end Turns

/-- The second head is not derived at a lower version than the first. -/
def NotBelow (H : Shake256) (secret : Secret) (h h' : Head) : Prop :=
  ∀ v v', h.DerivedAt H secret v → h'.DerivedAt H secret v' → v ≤ v'

/-- While the head is at version 2 nothing is sent after a failed pointer query, and no login that is told a pointer
of version 2 is refused or left without a verdict. -/
structure Unimpeded {E : Type} {S : Setting E} (V : Validator S) (secret : Secret) (w : World E) (turn : Turn) : Prop where
  answered : ∀ h bundle reply, (V.heads w.env).getLast? = some h → h.DerivedAt S.hash secret 2 →
    lookup (turnEvents S w turn) = some (.continuId bundle, reply) → proposals (turnEvents S w turn) ≠ [] →
      reply.failedQuery S.floatText = false
  settled : ∀ given slug encrypt bundle reply p first rest, turn.op = .requestAuthToken given slug encrypt →
    lookup (turnEvents S w turn) = some (.continuId bundle, reply) →
    Response.userPointer (reply.continuId S.floatText).data = some p →
      Head.DerivedAt S.hash secret ⟨p.position, p.walletAddress⟩ 2 →
    proposals (turnEvents S w turn) = first :: rest → ¬ first.2.rejects S.floatText ∧ ¬ first.2.inconclusive S.floatText

section Heads

variable {E : Type} {S : Setting E} {V : Validator S} {w u t : World E} {secret : Secret} {h h' : Head} {v v' : Int}

/-- A head of this run: a drawn position with the address that one of the versions derives there. -/
structure Head.Drawn (S : Setting E) (secret : Secret) (h : Head) (v : Int) : Prop where
  position : ∃ k, h.position = (S.draw k).bytes
  address : Wallet.addressAt S.hash secret.bytes (ascii "USER") h.position v = .ok h.address

/-- The two versions derive different addresses at the drawn positions. -/
def Separates (S : Setting E) (secret : Secret) : Prop :=
  ∀ k a, Wallet.addressAt S.hash secret.bytes (ascii "USER") (S.draw k).bytes 1 = .ok a →
    Wallet.addressAt S.hash secret.bytes (ascii "USER") (S.draw k).bytes 2 ≠ .ok a

theorem Head.Drawn.derivedAt (hdrawn : h.Drawn S secret v) : h.DerivedAt S.hash secret v :=
  ⟨h.address, hdrawn.address, rfl⟩

theorem Head.Drawn.version (hdrawn : h.Drawn S secret v) : v = 1 ∨ v = 2 := hdrawn.derivedAt.inv.1

/-- A head is derived at one version only. -/
theorem Head.Drawn.unique (hseparate : Separates S secret) (hdrawn : h.Drawn S secret v)
    (hderived : h.DerivedAt S.hash secret v') :
    v' = v := by
  obtain ⟨derived, hderived, hlower⟩ := hderived
  have hsame : derived = h.address := by
    rw [← Wallet.addressAt_lower hderived, hlower, Wallet.addressAt_lower hdrawn.address]
  obtain ⟨k, hk⟩ := hdrawn.position
  have haddress := hdrawn.address
  rw [hsame, hk] at hderived
  rw [hk] at haddress
  have hversion := hdrawn.version
  have hversion' : v' = 1 ∨ v' = 2 := Wallet.Derives.inv ⟨h.address, hderived, rfl⟩ |>.1
  obtain rfl | rfl := hversion <;> obtain rfl | rfl := hversion'
  · rfl
  · exact absurd hderived (hseparate k _ haddress)
  · exact absurd haddress (hseparate k _ hderived)
  · rfl

theorem Head.Drawn.notBelow (hseparate : Separates S secret) (hdrawn : h.Drawn S secret v) (hdrawn' : h'.Drawn S secret v')
    (hle : v ≤ v') : NotBelow S.hash secret h h' := by
  intro u u' hu hu'
  rwa [hdrawn.unique hseparate hu, hdrawn'.unique hseparate hu']

/-- The remainder wallet of a molecule is a head of the run. -/
theorem drawn_remainder {remainder : Wallet} {k : Nat} {mlKemParameterSet : Int}
    (hnew : Wallet.new S.hash S.kem secret.bytes (ascii "USER") (S.draw k).bytes mlKemParameterSet v = .ok remainder) :
    Head.Drawn S secret ⟨remainder.position, remainder.address⟩ v := by
  have hmade := Wallet.made_new hnew
  refine ⟨⟨k, hmade.position_eq⟩, ?_⟩
  change Wallet.addressAt _ _ _ remainder.position _ = _
  rw [hmade.position_eq]
  exact hmade.address_eq

theorem SignedBy.nextHead {H : Shake256} {cellSlug : ByteString} {source remainder : Wallet} {b : Molecule.Builder} {m : Molecule}
    (hsigned : SignedBy H cellSlug source remainder b secret m) (hb : b.continuId = true) :
    m.nextHead = some ⟨remainder.position, remainder.address⟩ := by
  obtain ⟨front, continuId, hatoms, hfront, hisotope, hplace⟩ := hsigned.atoms hb
  have hother : ascii b.frontIsotope ≠ ascii "I" := by
    unfold Molecule.Builder.frontIsotope
    split <;> decide
  rw [Molecule.nextHead, hatoms, List.find?_cons_of_neg (by simp [hfront, hother]), List.find?_cons_of_pos (by simp [hisotope]),
    Option.map_some, show continuId.position = remainder.position from congrArg Prod.fst hplace,
    show continuId.walletAddress = remainder.address from congrArg Prod.snd hplace]

/-- The heads so far belong to the run, and none is below its predecessor. -/
structure Upright (V : Validator S) (secret : Secret) (e : E) : Prop where
  drawn : ∀ h ∈ V.heads e, ∃ v, h.Drawn S secret v
  chain : (V.heads e).IsChain (NotBelow S.hash secret)

theorem Upright.of_heads {e e' : E} (hup : Upright V secret e) (hheads : V.heads e' = V.heads e) : Upright V secret e' := by
  obtain ⟨hdrawn, hchain⟩ := hup
  rw [← hheads] at hdrawn hchain
  exact ⟨hdrawn, hchain⟩

theorem Validator.heads_quiet (V : Validator S) (hquiet : Quiet S w t) : V.heads t.env = V.heads w.env := by
  induction hquiet with
  | refl => rfl
  | draw _ ih => exact ih
  | ask request hquery _ ih => exact (V.asked request _ hquery).trans ih

/-- A molecule whose successor is not below the head can be accepted. -/
theorem Upright.proposed (hup : Upright V secret u.env) (hseparate : Separates S secret) {m : Molecule}
    (hnext : m.nextHead = some h) (hdrawn : h.Drawn S secret v)
    (hlast : ∀ last v₀, (V.heads u.env).getLast? = some last → last.Drawn S secret v₀ → v₀ ≤ v) (signer : Secret) :
    Upright V secret (u.proposed S signer m).env := by
  obtain hsame | ⟨head, hhead, hheads⟩ := V.proposed m u.env
  · exact hup.of_heads hsame
  · obtain rfl := Option.some.inj (hnext.symm.trans hhead)
    have hheads : V.heads (u.proposed S signer m).env = V.heads u.env ++ [h] := hheads
    refine ⟨?_, ?_⟩
    · rw [hheads, List.forall_mem_append, List.forall_mem_singleton]
      exact ⟨hup.drawn, v, hdrawn⟩
    · rw [hheads, List.isChain_append]
      refine ⟨hup.chain, List.isChain_singleton _, fun last hmem head hhead => ?_⟩
      obtain rfl := Option.some.inj hhead
      obtain ⟨v₀, hv₀⟩ := hup.drawn last (List.mem_of_getLast? hmem)
      exact hv₀.notBelow hseparate hdrawn (hlast last v₀ hmem hv₀)

end Heads

section Told

variable {E : Type} {S : Setting E} {w : World E} {secret : Secret} {h : Head} {reply : Reply} {source : Wallet}

theorem Head.Drawn.filled (hdrawn : h.Drawn S secret 2) : h.position.length = 64 ∧ h.position ≠ [] ∧ h.address ≠ [] := by
  obtain ⟨k, hk⟩ := hdrawn.position
  have hlength : h.position.length = 64 := hk ▸ (S.draw k).length_eq
  refine ⟨hlength, fun hnil => by simp [hnil] at hlength, fun hnil => ?_⟩
  have haddress := hdrawn.address
  rw [Wallet.addressAt] at haddress
  cases hkey : Wallet.generateWalletKey S.hash secret.bytes (ascii "USER") h.position 2 with
  | error e => simp [hkey, Except.map] at haddress
  | ok key =>
    rw [hkey, hnil] at haddress
    have hempty : Wallet.generateWalletAddress S.hash key = [] := Except.ok.inj haddress
    have hlong : (Wallet.generateWalletAddress S.hash key).length = 64 := length_shake256Hex _ _ _
    simp [hempty] at hlong

/-- An operation that is told a head at a drawn position reads it. -/
theorem Reply.pointer_of_reports (hreports : reply.Reports S.floatText (some h)) (hlength : h.position.length = 64) :
    reply.pointer S.floatText = (h.position, h.address) := by
  obtain ⟨cid, hrow, hposition, haddress, -⟩ := hreports
  simp only [pointer, hrow, hposition, haddress, Option.getD_some, if_pos hlength]

/-- So does a login. -/
theorem Reply.userPointer_of_reports (hreports : reply.Reports S.floatText (some h)) (hposition : h.position ≠ []) :
    ∃ p, Response.userPointer (reply.continuId S.floatText).data = some p ∧ p.position = h.position ∧
      p.walletAddress = h.address := by
  obtain ⟨cid, hrow, hcid, haddress, htoken⟩ := hreports
  rw [row] at hrow
  cases hsuccess : reply.isSuccess with
  | false => simp [hsuccess] at hrow
  | true =>
    cases hbody : Json.parse S.floatText reply.body with
    | none => simp [hsuccess, hbody] at hrow
    | some body =>
      simp only [hsuccess, hbody, Bool.not_true, Bool.false_eq_true, ↓reduceIte, Option.bind_eq_some_iff] at hrow
      obtain ⟨found, ⟨data, hdata, hfound⟩, hobject⟩ := hrow
      split_ifs at hobject with hisObject
      obtain rfl := Option.some.inj hobject
      have hread : (reply.continuId S.floatText).data = data := by
        have hnull : data.isNull = false := by
          cases data with
          | null => cases hfound
          | _ => rfl
        simp [continuId, parseJson, hsuccess, hbody, responseData, hdata, hnull]
      refine ⟨⟨(found.stringAt "bundleHash").getD [], h.position, h.address⟩, ?_, rfl, rfl⟩
      simp [hread, Response.userPointer, Response.continuId, hfound, hisObject, hcid, haddress, htoken, hposition]

/-- A USER operation that is told a head of version 2 signs at that version. -/
theorem UserSource.version_of_reports {mlKemParameterSet : Int} (hsource : UserSource S w secret mlKemParameterSet reply source)
    (hsecret : w.client.secret = some secret) (hseparate : Separates S secret) (hdrawn : h.Drawn S secret 2)
    (hreports : reply.Reports S.floatText (some h)) : source.otsVersion = 2 := by
  obtain ⟨hlength, hposition, haddress⟩ := hdrawn.filled
  have hpointer := Reply.pointer_of_reports hreports hlength
  cases hsource with
  | fresh hnone _ =>
    rw [hpointer] at hnone
    exact absurd hnone hposition
  | pointer version _ hbind hnew =>
    rw [hpointer] at hbind
    have hderives := ((Client.bindOwnWalletOtsVersion_detects S.hash (ascii "USER") hsecret hposition haddress).2
        version).mp hbind
    rw [(Wallet.made_new hnew).otsVersion_eq]
    exact hdrawn.unique hseparate hderives.1

/-- A login that is told a head of version 2 detects that version. -/
theorem pointerOtsVersion_of_reports {config : Config} {p : Response.ContinuID} (hseparate : Separates S secret)
    (hdrawn : h.Drawn S secret 2) (hposition : p.position = h.position) (haddress : p.walletAddress = h.address) :
    pointerOtsVersion S config secret p = .ok (some 2) := by
  obtain ⟨-, hpositionFilled, haddressFilled⟩ := hdrawn.filled
  obtain ⟨found, hfound, hdetects⟩ := Wallet.detectOtsVersion_detects S.hash secret.bytes (ascii "USER")
    config.otsVersion_checked hpositionFilled haddressFilled
  have htwo : found = some 2 :=
    (hdetects.some_iff 2).mpr ⟨hdrawn.derivedAt, fun hpreferred => (hdrawn.unique hseparate hpreferred).symm⟩
  rw [pointerOtsVersion, hposition, haddress, if_neg haddressFilled, hfound, htwo]

/-- A client of version 1 that detects version 2 was told a pointer of that version. -/
theorem derivedAt_of_pointerOtsVersion {config : Config} {p : Response.ContinuID} (hone : config.otsVersion = 1)
    (hposition : p.position ≠ []) (hfound : pointerOtsVersion S config secret p = .ok (some 2)) :
    Head.DerivedAt S.hash secret ⟨p.position, p.walletAddress⟩ 2 := by
  rw [pointerOtsVersion] at hfound
  split_ifs at hfound with haddress
  · rw [hone] at hfound
    cases hfound
  · obtain ⟨found, hdetected, hdetects⟩ := Wallet.detectOtsVersion_detects S.hash secret.bytes (ascii "USER")
      config.otsVersion_checked hposition haddress
    exact ((hdetects.some_iff 2).mp (Except.ok.inj (hdetected.symm.trans hfound))).1

end Told

section Steps

variable {E : Type} {S : Setting E} {V : Validator S} {w u t : World E} {secret : Secret} {cellSlug : ByteString} {encrypt : Bool}
  {source : Wallet} {m : Molecule} {r : Throws Response}

theorem Config.successorOtsVersion_le (config : Config) (v : Int) :
    config.otsVersion ≤ config.successorOtsVersion v ∧ v ≤ config.successorOtsVersion v := by
  rw [Config.successorOtsVersion]
  omega

/-- The molecule of a USER operation is not below the head, unless a client of version 1 does not learn of a head of
version 2. -/
theorem Outcome.upright (h : Outcome S w (IsUserSigned S w) t) (hsecret : w.client.secret = some secret)
    (hup : Upright V secret w.env) (hseparate : Separates S secret)
    (hanswered : w.client.config.otsVersion = 1 → ∀ h bundle reply, (V.heads w.env).getLast? = some h →
      h.DerivedAt S.hash secret 2 → lookup (t.log.drop w.log.length) = some (.continuId bundle, reply) →
      proposals (t.log.drop w.log.length) ≠ [] → reply.failedQuery S.floatText = false) : Upright V secret t.env := by
  cases h with
  | quiet hquiet => exact hup.of_heads (V.heads_quiet hquiet)
  | @sent u signer m hquiet _ hsent =>
    obtain ⟨bundle, cellSlug, mlKemParameterSet, source, remainder, b, hsigned⟩ := hsent
    obtain rfl : signer = secret := Option.some.inj (hsigned.secret_eq.symm.trans hsecret)
    obtain ⟨k, -, -, hremainder⟩ := hsigned.remainder_of
    have hheads := V.heads_quiet hquiet
    refine (hup.of_heads hheads).proposed hseparate (hsigned.signed.nextHead hsigned.continuId) (drawn_remainder hremainder)
      (fun last v₀ hlast hv₀ => ?_) _
    have hle := w.client.config.successorOtsVersion_le source.otsVersion
    obtain rfl | rfl := hv₀.version
    · obtain hone | htwo := w.client.config.otsVersion_checked <;> omega
    · obtain hone | htwo := w.client.config.otsVersion_checked
      · rw [hheads] at hlast
        have hsends : Proposes [(m, (S.serve (.proposeMolecule m) u.env).1)] u (u.proposed S signer m) := ⟨[_], rfl, rfl⟩
        have hproposes := hquiet.proposes.trans hsends
        have hquery := hanswered hone last bundle _ hlast hv₀.derivedAt (lookup_asked hsigned.asked _ m)
          (hproposes.drop ▸ List.cons_ne_nil _ _)
        have hreports := V.truthful bundle w.env hquery
        rw [hlast] at hreports
        have hversion := hsigned.source_of.version_of_reports hsecret hseparate hv₀ hreports
        omega
      · omega

/-- An authorization molecule whose successor is not below the head. -/
theorem AuthorizationSigned.upright (h : AuthorizationSigned S w u secret cellSlug encrypt source m)
    (hup : Upright V secret w.env) (hseparate : Separates S secret)
    (hlast : ∀ last v₀, (V.heads w.env).getLast? = some last → last.Drawn S secret v₀ →
      v₀ ≤ w.client.config.successorOtsVersion source.otsVersion) :
    Upright V secret (u.authorized S secret source encrypt m).env := by
  obtain ⟨remainder, hremainder, hsigned⟩ := h.signed
  obtain rfl := h.drawn
  exact Upright.proposed (u := { w with drawn := w.drawn + 1 }) hup hseparate (hsigned.nextHead rfl) (drawn_remainder hremainder)
    hlast secret

/-- The head after it is the one before it or its successor. -/
theorem AuthorizationSigned.last (h : AuthorizationSigned S w u secret cellSlug encrypt source m) (hseparate : Separates S secret)
    {last : Head} {v₀ : Int} (hlast : (V.heads (u.authorized S secret source encrypt m).env).getLast? = some last)
    (hv₀ : last.Drawn S secret v₀) :
    (V.heads w.env).getLast? = some last ∨ v₀ = w.client.config.successorOtsVersion source.otsVersion := by
  obtain ⟨remainder, hremainder, hsigned⟩ := h.signed
  obtain rfl := h.drawn
  obtain hsame | ⟨head, hhead, hheads⟩ := V.proposed m w.env
  · exact .inl (hsame ▸ hlast)
  · have hheads : V.heads (World.authorized S { w with drawn := w.drawn + 1 } secret source encrypt m).env =
        V.heads w.env ++ [head] :=
      hheads
    rw [hheads, List.getLast?_concat] at hlast
    obtain rfl := Option.some.inj hlast
    obtain rfl := Option.some.inj ((hsigned.nextHead rfl).symm.trans hhead)
    exact .inr ((drawn_remainder hremainder).unique hseparate hv₀.derivedAt)

theorem FreshOutcome.upright (h : FreshOutcome S secret cellSlug encrypt w r t) (hup : Upright V secret w.env)
    (hseparate : Separates S secret)
    (hlast : ∀ first rest, Proposes (first :: rest) w t → ∀ last v₀, (V.heads w.env).getLast? = some last →
      last.Drawn S secret v₀ → v₀ ≤ w.client.config.otsVersion) : Upright V secret t.env := by
  cases h with
  | failed hquiet => exact hup.of_heads (V.heads_quiet hquiet)
  | sent hsource hsent =>
    obtain ⟨u, m, hsigned, -, rfl⟩ := hsent
    exact hsigned.upright hup hseparate fun last v₀ h hv₀ =>
      (hlast _ [] hsigned.proposes last v₀ h hv₀).trans (Config.successorOtsVersion_le _ _).1

/-- So does a login that is told a head of version 2, and that does not fall back from a wallet of version 2. -/
theorem login_upright {reply : Reply}
    (hexec : (login S secret cellSlug encrypt (Response.userPointer (reply.continuId S.floatText).data)).exec w = (r, t))
    (hup : Upright V secret w.env) (hseparate : Separates S secret)
    (htold : ∀ first rest, Proposes (first :: rest) w t → w.client.config.otsVersion = 1 →
      ∀ last, (V.heads w.env).getLast? = some last → last.Drawn S secret 2 → reply.Reports S.floatText (some last))
    (hsettled : w.client.config.otsVersion = 1 → ∀ p first rest,
      Response.userPointer (reply.continuId S.floatText).data = some p →
      Head.DerivedAt S.hash secret ⟨p.position, p.walletAddress⟩ 2 → Proposes (first :: rest) w t →
        ¬ first.2.rejects S.floatText ∧ ¬ first.2.inconclusive S.floatText) : Upright V secret t.env := by
  have hversion := w.client.config.otsVersion_checked
  -- if anything is sent, the head is at most at the client's version, or the client is told of it and detects its version
  have hbound {first : Molecule × Reply} {rest : List (Molecule × Reply)} (hsent : Proposes (first :: rest) w t) (last : Head)
      (v₀ : Int) (hlast : (V.heads w.env).getLast? = some last) (hv₀ : last.Drawn S secret v₀) :
      v₀ ≤ w.client.config.otsVersion ∨ v₀ = 2 ∧ ∃ p, Response.userPointer (reply.continuId S.floatText).data = some p ∧
        pointerOtsVersion S w.client.config secret p = .ok (some 2) := by
    obtain hone | htwo := hversion
    · obtain rfl | rfl := hv₀.version
      · exact .inl hone.ge
      · obtain ⟨-, hposition, -⟩ := hv₀.filled
        obtain ⟨p, hp, hplace, haddress⟩ := Reply.userPointer_of_reports (htold _ _ hsent hone last hlast hv₀) hposition
        exact .inr ⟨rfl, p, hp, pointerOtsVersion_of_reports hseparate hv₀ hplace haddress⟩
    · obtain rfl | rfl := hv₀.version <;> omega
  obtain ⟨e, t', hcase, hquiet⟩ | ⟨hnone, hcase⟩ | ⟨p, source, u, m, hp, hsource, hsigned, hdecided⟩ :=
    login_cases S w secret cellSlug encrypt (Response.userPointer (reply.continuId S.floatText).data)
      fun p hp => userPointer_position hp
  · obtain ⟨-, rfl⟩ := Prod.mk.inj (hexec.symm.trans hcase)
    exact hup.of_heads (V.heads_quiet hquiet)
  · have houtcome := authorizeFromFreshAuthWallet_outcome S w secret cellSlug encrypt
    rw [← hcase, hexec] at houtcome
    refine houtcome.upright hup hseparate fun first rest hsent last v₀ hlast hv₀ => ?_
    obtain hle | ⟨-, p, hp, hfound⟩ := hbound hsent last v₀ hlast hv₀
    · exact hle
    · cases (hnone p hp).symm.trans hfound
  · obtain ⟨version, hfound, hnew⟩ := hsource.ledger
    have hmade := Wallet.made_new hnew
    have hle := w.client.config.successorOtsVersion_le source.otsVersion
    -- the molecule from the pointer is sent, and perhaps one from a fresh wallet after it
    obtain ⟨rest, hsent⟩ : ∃ rest, Proposes ((m, u.verdict S m) :: rest) w t := by
      obtain ⟨-, hcase⟩ | ⟨-, -, -, hcase⟩ := hdecided
      · obtain ⟨-, rfl⟩ := Prod.mk.inj (hexec.symm.trans hcase)
        exact ⟨[], hsigned.proposes⟩
      · have houtcome := authorizeFromFreshAuthWallet_outcome S (u.authorized S secret source encrypt m) secret cellSlug encrypt
        rw [← hcase, hexec] at houtcome
        obtain hnone | ⟨second, answer, -, hsecond, -⟩ := houtcome.proposes
        · exact ⟨[], hsigned.proposes.trans hnone⟩
        · exact ⟨[(second, answer)], hsigned.proposes.trans hsecond⟩
    -- the pointer is the one that is told, and its wallet has the version that is detected
    have htwo (v₀ : Int) (hbeyond : v₀ = 2 ∧ ∃ p, Response.userPointer (reply.continuId S.floatText).data = some p ∧
        pointerOtsVersion S w.client.config secret p = .ok (some 2)) : v₀ = 2 ∧ source.otsVersion = 2 := by
      obtain ⟨hv₀, q, hq, hdetected⟩ := hbeyond
      obtain rfl := Option.some.inj (hp.symm.trans hq)
      rw [hmade.otsVersion_eq]
      exact ⟨hv₀, Option.some.inj (Except.ok.inj (hfound.symm.trans hdetected))⟩
    have hfirst : Upright V secret (u.authorized S secret source encrypt m).env := by
      refine hsigned.upright hup hseparate fun last v₀ hlast hv₀ => ?_
      obtain hsmall | hbeyond := hbound hsent last v₀ hlast hv₀
      · exact hsmall.trans hle.1
      · obtain ⟨rfl, hsourceTwo⟩ := htwo v₀ hbeyond
        omega
    obtain ⟨-, hcase⟩ | ⟨first, hanswer, hunsettled, hcase⟩ := hdecided
    · obtain ⟨-, rfl⟩ := Prod.mk.inj (hexec.symm.trans hcase)
      exact hfirst
    · have houtcome := authorizeFromFreshAuthWallet_outcome S (u.authorized S secret source encrypt m) secret cellSlug encrypt
      rw [← hcase, hexec] at houtcome
      -- a client of version 1 comes here from a wallet of version 1 only
      have hone : w.client.config.otsVersion = 1 → source.otsVersion ≠ 2 := by
        intro hone hsourceTwo
        rw [← hmade.otsVersion_eq, hsourceTwo] at hfound
        obtain ⟨hrejects, hinconclusive⟩ :=
          hsettled hone p _ rest hp (derivedAt_of_pointerOtsVersion hone (userPointer_position hp) hfound) hsent
        exact (Reply.rejects_or_inconclusive hanswer hunsettled).elim hrejects hinconclusive
      have hsourceVersion : source.otsVersion = 1 ∨ source.otsVersion = 2 := by
        rw [hmade.otsVersion_eq]
        exact Wallet.Derives.inv ⟨_, hmade.address_eq, rfl⟩ |>.1
      have hconfig : (u.authorized S secret source encrypt m).client.config = w.client.config := by
        rw [config_authorized, hsigned.drawn]
      refine houtcome.upright hfirst hseparate fun _ _ _ last v₀ hlast hv₀ => ?_
      rw [hconfig]
      have hv₀Version := hv₀.version
      obtain hbefore | rfl := hsigned.last hseparate hlast hv₀
      · obtain hsmall | hbeyond := hbound hsent last v₀ hbefore hv₀
        · exact hsmall
        · obtain ⟨rfl, hsourceTwo⟩ := htwo v₀ hbeyond
          obtain hclient | hclient := hversion
          · exact absurd hsourceTwo (hone hclient)
          · omega
      · obtain hclient | hclient := hversion
        · have := hone hclient
          rw [Config.successorOtsVersion]
          omega
        · omega

/-- The first step of a login asks the node nothing. -/
theorem heads_useSecret (V : Validator S) {given : Option ByteString} {r : Throws Unit}
    (huse : (useSecret S given).exec w = (r, u)) : V.heads u.env = V.heads w.env := by
  cases r with
  | error e =>
    obtain ⟨-, -, rfl⟩ | ⟨bytes, -, houtcome⟩ := useSecret_error huse
    · rfl
    · cases houtcome with
      | invalid => rfl
      | failed _ _ hquiet => exact (V.heads_quiet hquiet).trans rfl
  | ok _ =>
    obtain ⟨_, hu⟩ := identified_of_useSecret huse
    obtain ⟨-, rfl⟩ | ⟨_, _, -, -, -, rfl⟩ := hu.step
    · rfl
    · rfl

/-- A login with the secret of the identity. -/
theorem requestAuthToken_upright {given slug : Option ByteString}
    (hgiven : given = some secret.bytes ∨ given = none ∧ w.client.secret = some secret)
    (hup : Upright V secret w.env) (hseparate : Separates S secret)
    (hunimpeded : w.client.config.otsVersion = 1 → Unimpeded V secret w ⟨w.client, .requestAuthToken given slug encrypt⟩) :
    Upright V secret ((requestAuthToken S given slug encrypt).exec w).2.env := by
  rcases huse : (useSecret S given).exec w with ⟨e | _, u⟩
  · rw [requestAuthToken, Act.exec_bind, huse, Act.andThen_error]
    exact hup.of_heads (heads_useSecret V huse)
  obtain ⟨held, hu⟩ := identified_of_useSecret huse
  obtain rfl : held = secret := by
    obtain ⟨rfl, rfl⟩ | ⟨bytes, _, rfl, hbytes, -, -⟩ := hu.step
    · obtain hsome | ⟨-, hsecret⟩ := hgiven
      · cases hsome
      · exact Option.some.inj (hu.secret_eq.symm.trans hsecret)
    · obtain hsome | ⟨hnone, -⟩ := hgiven
      · obtain rfl := Option.some.inj hsome
        exact Except.ok.inj (hbytes.symm.trans secret.ofBytes_bytes)
      · cases hnone
  have hstart := heads_useSecret V huse
  obtain ⟨-, e, hexec⟩ | ⟨bundle, -, hcases⟩ := requestAuthToken_cases S hu huse slug encrypt
  · rw [hexec]
    exact hup.of_heads hstart
  have hasked : V.heads (u.asked S (.continuId bundle)).env = V.heads w.env := (V.asked _ _ rfl).trans hstart
  obtain ⟨e, -, hexec⟩ | ⟨message, -, hexec⟩ | ⟨-, hexec⟩ := hcases
  · rw [hexec]
    exact hup.of_heads hasked
  · rw [hexec]
    exact hup.of_heads hasked
  · rcases hlogin : (login S held (slug.getD (u.client.config.cellSlug.getD [])) encrypt
      (Response.userPointer ((S.serve (.continuId bundle) u.env).1.continuId S.floatText).data)).exec
        (u.asked S (.continuId bundle)) with ⟨r, t⟩
    have hstate : ((requestAuthToken S given slug encrypt).exec w).2 = t := by rw [hexec, hlogin]
    have hevents : turnEvents S w ⟨w.client, .requestAuthToken given slug encrypt⟩ = t.log.drop w.log.length := by
      rw [← hstate]
      rfl
    rw [hstate]
    have houtcome := login_outcome S (u.asked S (.continuId bundle)) held
      (slug.getD (u.client.config.cellSlug.getD [])) encrypt
      (Response.userPointer ((S.serve (.continuId bundle) u.env).1.continuId S.floatText).data)
      fun p hp => userPointer_position hp
    rw [hlogin] at houtcome
    obtain ⟨later, hlater, -⟩ := houtcome.posts given slug
    obtain ⟨-, -, -, hlookup⟩ := hu.history hlater
    have hconfig : (u.asked S (.continuId bundle)).client.config = w.client.config := hu.config
    refine login_upright hlogin (hup.of_heads hasked) hseparate (fun first rest hsent hone last hlast hdrawn => ?_)
      fun hone p first rest hp hderived hsent => ?_
    · rw [hasked] at hlast
      rw [hconfig] at hone
      rw [← hevents] at hlookup
      have hproposes : proposals (turnEvents S w ⟨w.client, .requestAuthToken given slug encrypt⟩) ≠ [] := by
        rw [hevents, hu.proposes hsent]
        exact List.cons_ne_nil _ _
      have hquery := (hunimpeded hone).answered last bundle _ hlast hdrawn.derivedAt hlookup hproposes
      have hreports := V.truthful bundle u.env hquery
      rwa [hstart, hlast] at hreports
    · rw [hconfig] at hone
      rw [← hevents] at hlookup
      exact (hunimpeded hone).settled given slug encrypt bundle _ p first rest rfl hlookup hp hderived
        (by rw [hevents, hu.proposes hsent])

/-- One turn of a client. -/
theorem Turn.upright {turn : Turn} (hshares : turn.Shares secret) (hup : Upright V secret w.env) (hseparate : Separates S secret)
    (hunimpeded : turn.client.config.otsVersion = 1 → Unimpeded V secret w turn) :
    Upright V secret (takeTurn S w turn).env := by
  obtain ⟨client, op⟩ := turn
  have hop (hsecret : client.secret = some secret)
      (houtcome : Outcome S { w with client } (IsUserSigned S { w with client }) (takeTurn S w ⟨client, op⟩)) :
      Upright V secret (takeTurn S w ⟨client, op⟩).env :=
    houtcome.upright hsecret hup hseparate fun hone => (hunimpeded hone).answered
  cases op with
  | requestAuthToken given slug encrypt =>
    exact requestAuthToken_upright (w := { w with client }) hshares hup hseparate fun hone =>
      ⟨(hunimpeded hone).answered, (hunimpeded hone).settled⟩
  | createToken token amount tokenMeta units => exact hop hshares (outcome_createToken token amount tokenMeta units)
  | createWallet token => exact hop hshares (outcome_createWallet token)
  | createMeta metaType metaId metas => exact hop hshares (outcome_createMeta metaType metaId metas)
  | claimShadowWallet token batchId => exact hop hshares (outcome_claimShadowWallet token batchId)
  | replenishToken token amount units => exact hop hshares (outcome_replenishToken token amount units)
  | setSecret | switchEncryption | transferToken | transferTokens | burnToken | depositBufferToken | withdrawBufferToken
  | fuseToken => cases hshares

end Steps

section Runs

variable {E : Type} {S : Setting E} {secret : Secret}

theorem takeTurns_upright (V : Validator S) (hseparate : Separates S secret) {turns : List Turn} {w : World E}
    (hshares : ∀ turn ∈ turns, turn.Shares secret)
    (hunimpeded : EachTurn S (fun w turn => turn.client.config.otsVersion = 1 → Unimpeded V secret w turn) w turns)
    (hup : Upright V secret w.env) : Upright V secret (takeTurns S w turns).env := by
  induction turns generalizing w with
  | nil => exact hup
  | cons turn turns ih =>
    obtain ⟨hfirst, hrest⟩ := hunimpeded
    obtain ⟨hshare, hshares⟩ := List.forall_mem_cons.mp hshares
    exact ih hshares hrest (Turn.upright hshare hup hseparate hfirst)

/-- Along every run in which no turn of a client of version 1 is impeded, the version of the head never decreases. -/
theorem takeTurns_never_back (V : Validator S) (hseparate : Separates S secret) (turns : List Turn) (w : World E)
    (hgenesis : V.heads w.env = []) (hshares : ∀ turn ∈ turns, turn.Shares secret)
    (hunimpeded : EachTurn S (fun w turn => turn.client.config.otsVersion = 1 → Unimpeded V secret w turn) w turns) :
    (V.heads (takeTurns S w turns).env).IsChain (NotBelow S.hash secret) := by
  have hup : Upright V secret w.env := ⟨by simp [hgenesis], hgenesis ▸ List.isChain_nil⟩
  exact (takeTurns_upright V hseparate hshares hunimpeded hup).chain

section Example

/-- A hash that tells the long keys of version 2, and what is derived from them, from everything else. -/
def sizedHash : Shake256 :=
  ⟨fun s size => List.replicate size (if size = 4096 || !s.isEmpty && s.all (· = 51) then 51 else 0), by simp⟩

theorem toHexString_replicate (n : Nat) (byte : UInt8) :
    toHexString (List.replicate n byte) =
      (List.replicate n [Json.hexDigit (byte.toNat / 16), Json.hexDigit (byte.toNat % 16)]).flatten := by
  induction n with
  | zero => rfl
  | succ n ih =>
    rw [List.replicate_succ, toHexString_cons, ih, List.replicate_succ, List.flatten_cons]
    rfl

/-- A run of one character. -/
def RunOf (c : UInt8) (s : ByteString) : Prop := s ≠ [] ∧ ∀ d ∈ s, d = c

theorem runOf_shake256Hex {c : UInt8} {s : ByteString} {bits : Nat} (byte : UInt8)
    (hsqueeze : shake256 sizedHash s bits = List.replicate (bits / 8) byte)
    (hbits : 8 ≤ bits) (hdigits : ∀ d ∈ [Json.hexDigit (byte.toNat / 16), Json.hexDigit (byte.toNat % 16)], d = c) :
    RunOf c (shake256Hex sizedHash s bits) := by
  refine ⟨List.ne_nil_of_length_pos (by rw [length_shake256Hex]; omega), fun d hd => ?_⟩
  rw [shake256Hex, hsqueeze, toHexString_replicate] at hd
  obtain ⟨pair, hpair, hd⟩ := List.mem_flatten.mp hd
  rw [List.eq_of_mem_replicate hpair] at hd
  exact hdigits d hd

/-- What is not marked stays unmarked. -/
theorem runOf_plain {s : ByteString} {bits : Nat} (hbits : 8 ≤ bits) (hshort : bits / 8 ≠ 4096) (hs : ∃ c ∈ s, c ≠ 51) :
    RunOf 48 (shake256Hex sizedHash s bits) := by
  obtain ⟨c, hc, hne⟩ := hs
  have hall : s.all (· = 51) = false := by
    rw [List.all_eq_false]
    exact ⟨c, hc, by simpa using hne⟩
  exact runOf_shake256Hex 0 (by simp only [shake256, sizedHash, hall, hshort, decide_false, Bool.and_false, Bool.or_false,
    Bool.false_eq_true, ↓reduceIte]) hbits (by decide +kernel)

/-- The long keys are marked, and a mark stays. -/
theorem runOf_marked {s : ByteString} {bits : Nat} (hbits : 8 ≤ bits) (hs : bits / 8 = 4096 ∨ RunOf 51 s) :
    RunOf 51 (shake256Hex sizedHash s bits) := by
  have hmark : (decide (bits / 8 = 4096) || !s.isEmpty && s.all (· = 51)) = true := by
    simpa [List.all_eq_true, RunOf] using hs
  exact runOf_shake256Hex 51 (by simp only [shake256, sizedHash, hmark, ↓reduceIte]) hbits (by decide +kernel)

/-- An address is a run of the character that its key is a run of. -/
theorem runOf_address {c : UInt8} {key : ByteString} (hkey : RunOf c key) (hdvd : 128 ∣ key.length)
    (hstep : ∀ s bits, RunOf c s → 8 ≤ bits → bits / 8 ≠ 4096 → RunOf c (shake256Hex sizedHash s bits)) :
    RunOf c (Wallet.generateWalletAddress sizedHash key) := by
  have hchain (n : Nat) (s : ByteString) (hs : RunOf c s) : RunOf c ((Wallet.chainStep sizedHash)^[n] s) := by
    induction n with
    | zero => exact hs
    | succ n ih =>
      rw [Function.iterate_succ_apply']
      exact hstep _ 512 ih (by norm_num) (by norm_num)
  have hends : ∀ e ∈ (chunkSubstr key 128).map (Wallet.chainStep sizedHash)^[16], RunOf c e := by
    intro e he
    obtain ⟨chunk, hchunk, rfl⟩ := List.mem_map.mp he
    have hlength : chunk.length = 128 := length_of_mem_blocks hdvd hchunk
    exact hchain 16 chunk ⟨List.ne_nil_of_length_pos (by omega), fun d hd => hkey.2 d (mem_of_mem_blocks hchunk hd)⟩
  have hflatten : RunOf c ((chunkSubstr key 128).map (Wallet.chainStep sizedHash)^[16]).flatten := by
    refine ⟨?_, fun d hd => ?_⟩
    · rw [chunkSubstr, blocks_of_ne_nil (by norm_num) hkey.1, List.map_cons, List.flatten_cons]
      refine fun hnil => (hends _ ?_).1 (List.append_eq_nil_iff.mp hnil).1
      rw [chunkSubstr, blocks_of_ne_nil (by norm_num) hkey.1, List.map_cons]
      exact List.mem_cons_self
    · obtain ⟨e, he, hd⟩ := List.mem_flatten.mp hd
      exact (hends e he).2 d hd
  rw [Wallet.generateWalletAddress, Wallet.addressOfEnds]
  exact hstep _ 256 (hstep _ 8192 hflatten (by norm_num) (by norm_num)) (by norm_num) (by norm_num)

theorem addressAt_sized {secret position : ByteString} (hsecret : secret ≠ []) (hposition : position ≠ []) :
    (∃ a, Wallet.addressAt sizedHash secret (ascii "USER") position 1 = .ok a ∧ RunOf 48 a) ∧
      ∃ a, Wallet.addressAt sizedHash secret (ascii "USER") position 2 = .ok a ∧ RunOf 51 a := by
  have hother {s : ByteString} (hs : RunOf 48 s) : ∃ c ∈ s, c ≠ 51 := by
    obtain ⟨c, rest, rfl⟩ := List.exists_cons_of_ne_nil hs.1
    exact ⟨c, List.mem_cons_self, by rw [hs.2 c List.mem_cons_self]; decide⟩
  constructor
  · obtain ⟨sum, hkey⟩ := Wallet.generateWalletKey_eq sizedHash (ascii "USER") (.inl rfl) hsecret hposition
    refine ⟨_, by rw [Wallet.addressAt, hkey]; rfl, runOf_address ?_ (by rw [length_shake256Hex]; norm_num) ?_⟩
    · refine runOf_plain (by norm_num) (by norm_num) (hother (runOf_plain (by norm_num) (by norm_num) ⟨85, ?_, by decide⟩))
      rw [Wallet.keySponge, if_neg (by norm_num)]
      exact List.mem_append_right _ (by decide)
    · exact fun s bits hs hbits hshort => runOf_plain hbits hshort (hother hs)
  · obtain ⟨sum, hkey⟩ := Wallet.generateWalletKey_eq sizedHash (ascii "USER") (.inr rfl) hsecret hposition
    refine ⟨_, by rw [Wallet.addressAt, hkey]; rfl, runOf_address ?_ (by rw [length_shake256Hex]; norm_num) ?_⟩
    · exact runOf_marked (by norm_num) (.inl (by norm_num))
    · exact fun s bits hs hbits _ => runOf_marked hbits (.inr hs)

/-- A node that accepts every molecule, and answers pointer queries only as long as there is no head. -/
def acceptingNode : Setting (List Head) where
  hash := sizedHash
  kem := oneKey
  floatText := integersOnly
  draw := scripted.draw
  clock := fun _ _ => 0
  serve
    | .proposeMolecule m, heads => (acceptance, heads ++ m.nextHead.toList)
    | _, heads => (if heads.isEmpty then unknownBundle else ⟨500, []⟩, heads)

def acceptingValidator : Validator acceptingNode where
  heads heads := heads
  asked request heads hquery := by
    cases request with
    | proposeMolecule m => cases hquery
    | continuId bundle => rfl
    | balance bundle token buffer => rfl
  proposed m heads := by
    change heads ++ m.nextHead.toList = heads ∨ ∃ h, m.nextHead = some h ∧ heads ++ m.nextHead.toList = heads ++ [h]
    cases hnext : m.nextHead with
    | none => exact .inl (List.append_nil _)
    | some h => exact .inr ⟨h, rfl, rfl⟩
  truthful bundle heads hanswered := by
    cases heads with
    | nil =>
      change unknownBundle.row integersOnly "ContinuId" = none
      decide +kernel
    | cons head heads => cases hanswered

/-- A client that shares the secret, configured at one of the versions. -/
def versionOne : Client := sampleClient

theorem checked_two : (2 : Int) = 1 ∨ (2 : Int) = 2 := .inr rfl

def versionTwo : Client := { sampleClient with config := { otsVersion := 2, otsVersion_checked := checked_two } }

theorem separates_acceptingNode : Separates acceptingNode sampleSecret := by
  intro k a hone htwo
  obtain ⟨⟨a₁, ha₁, hfirst⟩, a₂, ha₂, hsecond⟩ := addressAt_sized sampleSecret.nonempty (acceptingNode.draw k).ne_nil
  obtain rfl := Except.ok.inj (hone.symm.trans ha₁)
  obtain rfl := Except.ok.inj (htwo.symm.trans ha₂)
  obtain ⟨c, rest, hc⟩ := List.exists_cons_of_ne_nil hfirst.1
  have hmem : c ∈ a := hc ▸ List.mem_cons_self
  exact absurd ((hfirst.2 c hmem).symm.trans (hsecond.2 c hmem)) (by decide)

/-- The atoms that matter are the same up to the signature. -/
theorem Molecule.Completes.nextHead {H : Shake256} {built m : Molecule} (h : built.Completes H m) :
    m.nextHead = built.nextHead := by
  have hsame := congrArg (fun atoms => (atoms.find? fun a : Atom => a.isotope = ascii "I").map fun a : Atom =>
    (⟨a.position, a.walletAddress⟩ : Head)) h.atoms
  simp only [List.find?_map, Option.map_map] at hsame
  exact hsame

/-- At a node that tells no pointer, a metadata operation makes a wallet of its client's version the head. -/
theorem createMeta_accepted {w : World (List Head)} (hclient : w.client = versionOne ∨ w.client = versionTwo) :
    ∃ h, h.Drawn acceptingNode sampleSecret w.client.config.otsVersion ∧
      ((createMeta acceptingNode [] [] []).exec w).2.env = w.env ++ [h] := by
  have hkem (set : Int) (seed : ByteString) : ∃ publicKey, oneKey.publicKey set seed = some publicKey := ⟨[], rfl⟩
  have hconfig : w.client.isAuthenticated = true ∧ w.client.secret = some sampleSecret ∧ w.client.bundle = some sampleBundle ∧
      w.client.transport.cipherEnabled = false ∧ w.client.config.mlKemParameterSet = 1024 ∧ w.client.config.cellSlug = none := by
    obtain h | h := hclient <;> rw [h] <;> exact ⟨rfl, rfl, rfl, rfl, rfl, rfl⟩
  obtain ⟨hauth, hsecret, hbundle, hplain, hset, hslug⟩ := hconfig
  have hversion := w.client.config.otsVersion_checked
  obtain ⟨source, hsource⟩ := Wallet.new_exists (H := sizedHash) hkem (ascii "USER") sampleSecret.nonempty
    (acceptingNode.draw w.drawn).ne_nil (.inr hset) hversion
  have hsuccessor : w.client.config.successorOtsVersion source.otsVersion = w.client.config.otsVersion := by
    rw [(Wallet.made_new hsource).otsVersion_eq, Config.successorOtsVersion, max_self]
  obtain ⟨remainder, hremainder⟩ := Wallet.new_exists (H := sizedHash) hkem (ascii "USER") sampleSecret.nonempty
    (acceptingNode.draw (w.drawn + 1)).ne_nil (.inr hset) hversion
  have hpointer : ((acceptingNode.serve (.continuId sampleBundle) w.env).1.pointer integersOnly).1 = [] := by
    cases w.env with
    | nil =>
      change (unknownBundle.pointer integersOnly).1 = []
      decide +kernel
    | cons head heads => rfl
  have hfound := exec_continuIdSourceWallet_fresh (S := acceptingNode) hsecret hpointer hsource
  have hsubmittable : Submittable sizedHash sampleSecret
      (metaMolecule (w.client.config.cellSlug.getD []) (fun _ => 0) source remainder [] [] []) :=
    submittable_metaMolecule (Wallet.made_new hsource) (Wallet.made_new hremainder) (utf8_randomHex _) (utf8_randomHex _)
      (by rw [hslug]; rfl) rfl rfl (by simp) _
  rw [← hsuccessor] at hremainder
  obtain ⟨m, hcompletes, hrun⟩ := createMeta_sends (S := acceptingNode) hauth hsecret hbundle hplain hfound rfl hremainder
    hsubmittable
  refine ⟨⟨remainder.position, remainder.address⟩, ?_, ?_⟩
  · rw [← hsuccessor]
    exact drawn_remainder hremainder
  · rw [hrun]
    change w.env ++ m.nextHead.toList = _
    rw [hcompletes.nextHead]
    rfl

/-- The metadata operation of a client. -/
def metaTurn (client : Client) : Turn := ⟨client, .createMeta [] [] []⟩

def genesis : World (List Head) := { client := sampleClient, env := [] }

theorem takeTurn_metaTurn {w : World (List Head)} {client : Client} (hclient : client = versionOne ∨ client = versionTwo) :
    ∃ h, h.Drawn acceptingNode sampleSecret client.config.otsVersion ∧
      (takeTurn acceptingNode w (metaTurn client)).env = w.env ++ [h] :=
  createMeta_accepted (w := { w with client }) hclient

theorem takeTurns_never_back_upgrade :
    (acceptingValidator.heads (takeTurns acceptingNode genesis [metaTurn versionOne, metaTurn versionTwo]).env).IsChain
      (NotBelow sizedHash sampleSecret) := by
  refine takeTurns_never_back acceptingValidator separates_acceptingNode _ genesis rfl ?_ ⟨fun _ => ⟨?_, ?_⟩, ?_, trivial⟩
  · exact List.forall_mem_cons.mpr ⟨rfl, List.forall_mem_singleton.mpr rfl⟩
  · intro h bundle reply hlast
    cases hlast
  · intro given slug encrypt bundle reply p first rest hop
    cases hop
  · intro hversion
    cases hversion

/-- A client of version 1 whose pointer query fails takes the head of a client of version 2 back. -/
theorem failed_query_steps_back : Separates acceptingNode sampleSecret ∧ acceptingValidator.heads genesis.env = [] ∧
    (∀ turn ∈ [metaTurn versionTwo, metaTurn versionOne], turn.Shares sampleSecret) ∧
    ¬ (acceptingValidator.heads (takeTurns acceptingNode genesis [metaTurn versionTwo, metaTurn versionOne]).env).IsChain
      (NotBelow sizedHash sampleSecret) := by
  refine ⟨separates_acceptingNode, rfl, List.forall_mem_cons.mpr ⟨rfl, List.forall_mem_singleton.mpr rfl⟩, ?_⟩
  obtain ⟨first, hfirst, hstate⟩ := takeTurn_metaTurn (w := genesis) (.inr rfl)
  obtain ⟨second, hsecond, hend⟩ := takeTurn_metaTurn (w := takeTurn acceptingNode genesis (metaTurn versionTwo)) (.inl rfl)
  have hheads : (takeTurns acceptingNode genesis [metaTurn versionTwo, metaTurn versionOne]).env = [first, second] := by
    rw [takeTurns, List.foldl_cons, List.foldl_cons, List.foldl_nil, hend, hstate]
    rfl
  rw [hheads]
  intro hchain
  have hbelow : NotBelow sizedHash sampleSecret first second := List.isChain_pair.mp hchain
  exact absurd (hbelow 2 1 hfirst.derivedAt hsecond.derivedAt) (by decide)

end Example

end Runs

end KnishIO
