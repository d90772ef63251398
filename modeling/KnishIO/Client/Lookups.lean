import KnishIO.Client.UserRuns

open ByteString

namespace KnishIO

section Rules

/-- The position that a reply states for the head, whatever it looks like. -/
def Reply.statedPosition (F : Json.FloatText) (reply : Reply) : Option ByteString :=
  (reply.row F "ContinuId").bind (·.stringAt "position")

/-- The place that a reply states for the wallet of a token. -/
def Reply.statedPlace (F : Json.FloatText) (reply : Reply) : Option Place :=
  (reply.row F "Balance").bind fun row =>
    (row.stringAt "position").bind fun position => (row.stringAt "address").map fun address => (position, address)

/-- The place of the wallet that a replenishing molecule credits. -/
def Molecule.creditedPlace (m : Molecule) : Option Place :=
  m.atoms.head?.bind fun front =>
    (front.meta.lookup (ascii "position")).bind fun position =>
      (front.meta.lookup (ascii "address")).map fun address => (position, address)

/-- The molecule is signed by a USER wallet at the position that the reply states. -/
def Molecule.SignsAtStated (F : Json.FloatText) (reply : Reply) (m : Molecule) : Prop :=
  ∃ position, reply.statedPosition F = some position ∧ m.OpensAt (ascii "USER") position

/-- The molecule credits the wallet that the reply states. -/
def Molecule.CreditsStated (F : Json.FloatText) (reply : Reply) (m : Molecule) : Prop :=
  ∃ place, reply.statedPlace F = some place ∧ m.creditedPlace = some place

/-- The first reply to a Balance query. -/
def rowReply (events : List Event) : Option Reply :=
  events.findSome? fun
    | .asked (.balance _ _ _) reply => some reply
    | _ => none

variable {E : Type} (S : Setting E) (w : World E) (op : UserOp)

/-- The history of an operation. -/
def UserOp.events : List Event := ((op.run S).exec w).2.log.drop w.log.length

/-- After a failed pointer query nothing is sent; a molecule is signed at the position that the reply states, unless
the query succeeded and states no USER pointer; and a wallet is credited at the place that the reply states, unless
the query succeeded and states no wallet. -/
structure LookupRules (F : Json.FloatText) (events : List Event) : Prop where
  unanswered : ∀ bundle reply, lookup events = some (.continuId bundle, reply) → reply.failedQuery F = true →
    proposals events = []
  signed : ∀ sent ∈ proposals events, ∃ bundle reply, lookup events = some (.continuId bundle, reply) ∧
    (sent.1.SignsAtStated F reply ∨
      reply.failedQuery F = false ∧ Response.userPointer (reply.continuId F).data = none)
  credited : op.replenished.isSome = true → ∀ sent ∈ proposals events, ∃ reply, rowReply events = some reply ∧
    (sent.1.CreditsStated F reply ∨ reply.failedQuery F = false ∧ reply.row F "Balance" = none)

/-- The reply to the pointer query. -/
def toldPointer : Reply := (S.serve (.continuId (w.client.bundle.getD [])) w.env).1

/-- The operation concludes nothing from the replies that they do not state. -/
structure Understands : Prop where
  answered : (toldPointer S w).failedQuery S.floatText = false
  pointer : ((toldPointer S w).pointer S.floatText).1 = [] →
    Response.userPointer ((toldPointer S w).continuId S.floatText).data = none
  row : ∀ token, op.replenished = some token →
    ((toldRow S w (w.client.bundle.getD []) token).tokenWallet S.floatText).found = false →
      (toldRow S w (w.client.bundle.getD []) token).failedQuery S.floatText = false ∧
        (toldRow S w (w.client.bundle.getD []) token).row S.floatText "Balance" = none

/-- A reply names a wallet that the client does not derive. -/
def Refuses : Prop :=
  ¬ Accepts S w (w.client.bundle.getD []) ∨
    ∃ token, op.replenished = some token ∧ ¬ AcceptsRow S w (w.client.bundle.getD []) token

end Rules

section Credited

variable {E : Type} {S : Setting E} {w u t : World E} {bundle token : ByteString}

/-- The wallet that a replenishment credits: that of the row, or a new one. -/
structure IsCredited (S : Setting E) (w : World E) (token : ByteString) (u : World E) (m : Molecule) : Prop where
  told : rowReply (u.log.drop w.log.length) = some (toldRow S w (w.client.bundle.getD []) token)
  accepted : AcceptsRow S w (w.client.bundle.getD []) token
  place : ∃ place : Place, m.creditedPlace = some place ∧ place.1 ≠ [] ∧ place.2 ≠ [] ∧
    (((toldRow S w (w.client.bundle.getD []) token).tokenWallet S.floatText).found = true →
      place = (((toldRow S w (w.client.bundle.getD []) token).tokenWallet S.floatText).position,
        ((toldRow S w (w.client.bundle.getD []) token).tokenWallet S.floatText).address))

/-- A replenishing molecule names the wallet that it credits. -/
theorem SignedBy.creditedPlace {H : Shake256} {cellSlug : ByteString} {source remainder credited : Wallet} {amount : ByteString}
    {units : List TokenUnit} {secret : Secret} {m : Molecule}
    (h : SignedBy H cellSlug source remainder (.initTokenReplenish source credited amount units) secret m) :
    m.creditedPlace = some credited.place := by
  obtain ⟨clock, atoms, built, position, hrun, hsign⟩ := h
  cases hunits : Molecule.unitsMeta units with
  | error e =>
    simp only [Molecule.Builder.run, Molecule.initTokenReplenish, Act.exec_bind, hunits] at hrun
    cases hrun
  | ok tokenUnits =>
    have hbuilt := (Act.run_eq_ok.mpr hrun).symm.trans (run_initTokenReplenish cellSlug clock amount hunits)
    obtain ⟨-, rfl⟩ := Prod.mk.inj (Except.ok.inj hbuilt)
    obtain ⟨hash, key, signature, -, -, -, rfl⟩ := Molecule.sign_ok_inv rfl hsign
    obtain ⟨fragment, rest, hfront⟩ := Molecule.exists_front_signed
      (m := openingMolecule "C" cellSlug clock source remainder _ _ _ _ (Molecule.replenishMeta credited tokenUnits)) rfl H
      secret.bytes false hash signature
    rw [Molecule.creditedPlace, hfront]
    simp [Atom.new, Molecule.replenishMeta, Wallet.place, List.lookup_cons, ascii]

/-- The credited wallet is the one of the row, or a new one. -/
theorem creditedWallet_ok {secret : Secret} {config : Config} {info : TokenWalletInfo} {credited : Wallet}
    (hfilled : info.found = true → info.position ≠ [] ∧ info.address ≠ [])
    (h : (creditedWallet S secret token config info).exec w = (.ok credited, t)) :
    credited.position ≠ [] ∧ credited.address ≠ [] ∧
      (info.found = true → credited.place = (info.position, info.address) ∧
        ∃ version, w.client.bindOwnWalletOtsVersion S.hash token info.position info.address = .ok version) := by
  rw [creditedWallet] at h
  split_ifs at h with hfound
  · obtain ⟨hposition, haddress⟩ := hfilled hfound
    rcases hledger : (ledgerWallet S secret token config.mlKemParameterSet info).exec w with ⟨e | ledger, u⟩
    · simp [Act.exec_bind, hledger] at h
    · obtain ⟨-, version, hbind, hnew⟩ := ledgerWallet_ok hposition hledger
      rw [exec_bind_of_ok hledger] at h
      obtain ⟨hcredited, -⟩ := Prod.mk.inj h
      obtain rfl := Except.ok.inj hcredited
      have hplace := (Wallet.made_new hnew).position_eq
      exact ⟨hplace ▸ hposition, haddress, fun _ => ⟨Prod.ext hplace rfl, version, hbind⟩⟩
  · obtain ⟨-, -, hnew⟩ | ⟨hne, -⟩ := newWallet_ok h
    · obtain ⟨key, publicKey, -, -, rfl⟩ := Wallet.new_ok hnew
      have hlong : (Wallet.generateWalletAddress S.hash key).length = 64 := length_shake256Hex _ _ _
      exact ⟨(S.draw _).ne_nil, List.ne_nil_of_length_pos (hlong ▸ by norm_num), fun hfound' => absurd hfound' hfound⟩
    · exact absurd rfl hne

theorem outcome_credited (token : ByteString) (amount : BinaryFloat.Value) (units : List ByteString) :
    Outcome S w (fun u _ m => IsCredited S w token u m) ((replenishToken S token amount units).exec w).2 := by
  refine .ensureAuthenticated .refl (.secretValue .refl fun secret hsecret => .get (.ofExcept .refl fun amountLL _ => ?_))
  refine .require .refl fun _ => .require .refl fun _ => .getBundle .refl fun bundle hbundle => ?_
  refine .bind (moves_continuIdSourceWallet _ _) .refl fun source t hfind _ ht => ?_
  obtain ⟨-, k, -, -, rfl, -⟩ := continuIdSourceWallet_ok hfind
  refine .bind (moves_newWallet _ _ _ _ _) ht fun remainder u hremainder _ hu => ?_
  obtain ⟨-, rfl, -⟩ | ⟨hne, -⟩ := newWallet_ok hremainder
  · refine .bind (moves_resolveTokenWallet _ _ _) hu fun existing v hexisting _ hv => ?_
    obtain ⟨rfl, rfl⟩ := resolveTokenWallet_ok hexisting
    refine .bind (moves_creditedWallet _ _ _ _) hv fun credited x hcredited hvx hx => ?_
    refine outcome_assemble hx fun secret' m hheld hsigned hcheck => ?_
    obtain ⟨hposition, haddress, hrow⟩ := creditedWallet_ok (fun hfound =>
      ⟨Reply.tokenWallet_position _ _ hfound, Reply.tokenWallet_address _ _ hfound⟩) hcredited
    have hbundle' : w.client.bundle.getD [] = bundle := by rw [hbundle, Option.getD_some]
    obtain ⟨later, hlater, -⟩ := hvx.log
    refine ⟨?_, ?_, credited.place, hsigned.creditedPlace, hposition, haddress, ?_⟩
    · rw [hbundle', hlater]
      change rowReply (List.drop w.log.length (w.log ++ [_] ++ [_] ++ later)) = _
      rw [List.append_assoc, List.append_assoc, List.drop_left]
      rfl
    · rw [AcceptsRow, hbundle']
      intro hfound e herror
      obtain ⟨-, version, hbind⟩ := hrow hfound
      cases hbind.symm.trans herror
    · rw [hbundle']
      exact fun hfound => (hrow hfound).1
  · exact absurd rfl hne

end Credited

theorem Molecule.OpensAt.position_eq {m : Molecule} {token token' position position' : ByteString} (h : m.OpensAt token position)
    (h' : m.OpensAt token' position') : position = position' := by
  obtain ⟨front, rest, hatoms, -, rfl⟩ := h
  obtain ⟨front', rest', hatoms', -, rfl⟩ := h'
  rw [(List.cons.inj (hatoms.symm.trans hatoms')).1]

section Main

variable {E : Type} {S : Setting E} {w u t : World E} {op : UserOp} {secret : Secret} {m : Molecule}

theorem UserOp.outcome (S : Setting E) (w : World E) (op : UserOp) : Outcome S w (IsUserSigned S w) ((op.run S).exec w).2 := by
  cases op with
  | createToken token amount tokenMeta units => exact outcome_createToken token amount tokenMeta units
  | createWallet token => exact outcome_createWallet token
  | createMeta metaType metaId metas => exact outcome_createMeta metaType metaId metas
  | claimShadowWallet token batchId => exact outcome_claimShadowWallet token batchId
  | replenishToken token amount units => exact outcome_replenishToken token amount units

theorem Outcome.proposes {P : World E → Secret → Molecule → Prop} (h : Outcome S w P t) :
    Proposes [] w t ∨ ∃ u secret m, Quiet S w u ∧ P u secret m ∧ t = u.proposed S secret m ∧
      Proposes [(m, (S.serve (.proposeMolecule m) u.env).1)] w t := by
  cases h with
  | quiet hquiet => exact .inl hquiet.proposes
  | @sent u secret m hquiet _ hP =>
    exact .inr ⟨u, secret, m, hquiet, hP, rfl, hquiet.proposes.trans ⟨[_], rfl, rfl⟩⟩

/-- A position counts as a pointer when it has the length of one. -/
theorem Reply.pointer_iff {F : Json.FloatText} {reply : Reply} {position : ByteString} (hposition : position ≠ []) :
    (reply.pointer F).1 = position ↔ reply.statedPosition F = some position ∧ position.length = 64 := by
  rw [Reply.pointer, Reply.statedPosition]
  cases hrow : reply.row F "ContinuId" with
  | none => simp [hposition.symm]
  | some cid =>
    cases hstated : cid.stringAt "position" with
    | none => simp [hstated, hposition.symm]
    | some stated =>
      simp only [Option.bind_some, hstated, Option.getD_some, Option.some.injEq]
      split_ifs with hlength
      · constructor
        · rintro rfl
          exact ⟨rfl, hlength⟩
        · exact fun h => h.1
      · constructor
        · exact fun h => absurd h.symm hposition
        · rintro ⟨rfl, hlong⟩
          exact absurd hlong hlength

/-- What a molecule that is sent shows of the reply to the pointer query. -/
theorem UserSigned.told {bundle cellSlug : ByteString} {mlKemParameterSet : Int} {source remainder : Wallet}
    {b : Molecule.Builder} (h : UserSigned S w u secret bundle cellSlug mlKemParameterSet source remainder b m) :
    lookup ((u.proposed S secret m).log.drop w.log.length) = some (.continuId bundle, toldPointer S w) ∧
      Accepts S w (w.client.bundle.getD []) ∧
      (((toldPointer S w).pointer S.floatText).1 = [] ↔ ¬ m.SignsAtStated S.floatText (toldPointer S w)) := by
  have hbundle : w.client.bundle.getD [] = bundle := by rw [h.bundle_eq, Option.getD_some]
  have hopens := h.signed.opensAt h.continuId h.source_eq
  rw [toldPointer, hbundle]
  refine ⟨lookup_asked h.asked _ m, ?_⟩
  cases h.source_of with
  | fresh hnone hnew =>
    refine ⟨fun e he => ?_, fun _ => ?_, fun _ => hnone⟩
    · rw [Client.bindOwnWalletOtsVersion, if_pos (.inl hnone)] at he
      cases he
    · rintro ⟨position, hstated, hat⟩
      have hplace : position = source.position := hat.position_eq hopens
      have hdrawn : position = (S.draw w.drawn).bytes := hplace.trans (Wallet.made_new hnew).position_eq
      have hpointer := (Reply.pointer_iff (hdrawn ▸ (S.draw _).ne_nil)).mpr ⟨hstated, hdrawn ▸ (S.draw _).length_eq⟩
      exact (S.draw w.drawn).ne_nil (hdrawn.symm.trans (hpointer.symm.trans hnone))
  | pointer version hpointer hbind hnew =>
    refine ⟨fun e he => ?_, fun hnone => absurd hnone hpointer, fun hnot =>
      absurd ⟨_, ((Reply.pointer_iff hpointer).mp rfl).1, ?_⟩ hnot⟩
    · cases hbind.symm.trans he
    · have hmade := Wallet.made_new hnew
      rw [hmade.token_eq, hmade.position_eq] at hopens
      exact hopens

/-- A place that a reply states is the one of a spendable wallet. -/
theorem Reply.statedPlace_iff {F : Json.FloatText} {reply : Reply} {place : Place} (hposition : place.1 ≠ [])
    (haddress : place.2 ≠ []) :
    reply.statedPlace F = some place ↔ (reply.tokenWallet F).found = true ∧
      ((reply.tokenWallet F).position, (reply.tokenWallet F).address) = place := by
  obtain ⟨position, address⟩ := place
  rw [Reply.statedPlace, Reply.tokenWallet]
  cases reply.row F "Balance" with
  | none => simp
  | some bal =>
    cases hstated : bal.stringAt "position" with
    | none => simp [hstated]
    | some stated =>
      cases hat : bal.stringAt "address" with
      | none => simp [hstated, hat]
      | some at' =>
        simp only [Option.bind_some, hstated, hat, Option.map_some, Option.some.injEq, Option.getD_some, Bool.and_eq_true,
          decide_eq_true_eq, Prod.mk.injEq]
        constructor
        · rintro ⟨rfl, rfl⟩
          exact ⟨⟨hposition, haddress⟩, rfl, rfl⟩
        · exact fun h => h.2

/-- What a molecule that is sent shows of the reply to the Balance query. -/
theorem IsCredited.credits {token : ByteString} (h : IsCredited S w token u m) :
    ((toldRow S w (w.client.bundle.getD []) token).tokenWallet S.floatText).found = false ↔
      ¬ m.CreditsStated S.floatText (toldRow S w (w.client.bundle.getD []) token) := by
  obtain ⟨place, hplace, hposition, haddress, hrow⟩ := h.place
  rw [← Bool.not_eq_true, not_iff_not]
  constructor
  · exact fun hfound => ⟨place, (Reply.statedPlace_iff hposition haddress).mpr ⟨hfound, (hrow hfound).symm⟩, hplace⟩
  · rintro ⟨stated, hstated, hcredited⟩
    obtain rfl := Option.some.inj (hplace.symm.trans hcredited)
    exact ((Reply.statedPlace_iff hposition haddress).mp hstated).1

theorem rowReply_proposed {reply : Reply} (hquiet : Quiet S w u) (secret : Secret) (m : Molecule)
    (h : rowReply (u.log.drop w.log.length) = some reply) :
    rowReply ((u.proposed S secret m).log.drop w.log.length) = some reply := by
  obtain ⟨later, hlater, -⟩ := hquiet.log
  have hlog : (u.proposed S secret m).log.drop w.log.length =
      later ++ [.proposed secret m (S.serve (.proposeMolecule m) u.env).1] := by
    change (u.log ++ [_]).drop w.log.length = _
    rw [hlater, List.append_assoc, List.drop_left]
  rw [hlater, List.drop_left] at h
  rw [hlog, rowReply, List.findSome?_append, ← rowReply, h, Option.some_or]

/-- An operation sends nothing, or one molecule, whose wallets the replies explain. -/
theorem UserOp.sent_cases (S : Setting E) (w : World E) (op : UserOp) :
    proposals (op.events S w) = [] ∨ ∃ bundle sent, proposals (op.events S w) = [sent] ∧ ¬ Refuses S w op ∧
      lookup (op.events S w) = some (.continuId bundle, toldPointer S w) ∧
      (((toldPointer S w).pointer S.floatText).1 = [] ↔ ¬ sent.1.SignsAtStated S.floatText (toldPointer S w)) ∧
      ∀ token, op.replenished = some token →
        rowReply (op.events S w) = some (toldRow S w (w.client.bundle.getD []) token) ∧
          (((toldRow S w (w.client.bundle.getD []) token).tokenWallet S.floatText).found = false ↔
            ¬ sent.1.CreditsStated S.floatText (toldRow S w (w.client.bundle.getD []) token)) := by
  obtain hnone | ⟨u, secret, m, hquiet, ⟨bundle, cellSlug, set, source, remainder, b, hsigned⟩, ht, hsent⟩ :=
    (op.outcome S w).proposes
  · exact .inl hnone.drop
  · obtain ⟨hlookup, haccepts, hpointer⟩ := hsigned.told
    rw [← ht] at hlookup
    have hrow (token : ByteString) (htoken : op.replenished = some token) :
        rowReply (op.events S w) = some (toldRow S w (w.client.bundle.getD []) token) ∧
          AcceptsRow S w (w.client.bundle.getD []) token ∧
          (((toldRow S w (w.client.bundle.getD []) token).tokenWallet S.floatText).found = false ↔
            ¬ m.CreditsStated S.floatText (toldRow S w (w.client.bundle.getD []) token)) := by
      cases op with
      | replenishToken token' amount units =>
        obtain rfl := Option.some.inj htoken
        obtain hnone | ⟨u', secret', m', hquiet', hcredited, ht', hsent'⟩ :=
          (outcome_credited (S := S) (w := w) token' amount units).proposes
        · cases hsent.drop.symm.trans hnone.drop
        · obtain ⟨rfl, -⟩ := Prod.mk.inj (List.cons.inj (hsent.drop.symm.trans hsent'.drop)).1
          have htold := rowReply_proposed hquiet' secret' m hcredited.told
          rw [← ht'] at htold
          exact ⟨htold, hcredited.accepted, hcredited.credits⟩
      | createToken | createWallet | createMeta | claimShadowWallet => cases htoken
    refine .inr ⟨bundle, _, hsent.drop, ?_, hlookup, hpointer, fun token htoken => ?_⟩
    · rintro (hnot | ⟨token, htoken, hnot⟩)
      · exact hnot haccepts
      · exact hnot (hrow token htoken).2.1
    · obtain ⟨htold, -, hcredits⟩ := hrow token htoken
      exact ⟨htold, hcredits⟩

theorem LookupRules.silent {F : Json.FloatText} {events : List Event} (h : proposals events = []) : LookupRules op F events where
  unanswered := fun _ _ _ _ => h
  signed := by simp [h]
  credited := by simp [h]

/-- Where nothing stands in the way, a molecule is sent. -/
theorem World.Ready.proposals_ne_nil {bundle : ByteString} (h : w.Ready S secret bundle) (hop : op.Writable)
    (hnot : ¬ Refuses S w op) : proposals (op.events S w) ≠ [] := by
  obtain ⟨haccepts, hrows⟩ := not_or.mp hnot
  rw [h.bundle_eq, Option.getD_some] at haccepts hrows
  obtain ⟨u, m, hquiet, -, ht⟩ := h.sends hop (not_not.mp haccepts)
    fun token htoken => not_not.mp fun hrefused => hrows ⟨token, htoken, hrefused⟩
  have hsent : Proposes [(m, (S.serve (.proposeMolecule m) u.env).1)] w ((op.run S).exec w).2 :=
    ht ▸ hquiet.proposes.trans ⟨[_], rfl, rfl⟩
  rw [UserOp.events, hsent.drop]
  exact List.cons_ne_nil _ _

/-- Every operation of the USER chain draws the conclusions that its replies allow when it understands them or
refuses a wallet that they name, and an operation that can send something does so only then. -/
theorem userOp_lookups (S : Setting E) (w : World E) (op : UserOp) :
    (Understands S w op ∨ Refuses S w op → LookupRules op S.floatText (op.events S w)) ∧
      ∀ secret bundle, w.Ready S secret bundle → op.Writable → LookupRules op S.floatText (op.events S w) →
        Understands S w op ∨ Refuses S w op := by
  obtain hnone | ⟨bundle, sent, hsent, hnot, hlookup, hpointer, hrow⟩ := op.sent_cases S w
  · refine ⟨fun _ => .silent hnone, fun secret bundle hready hop _ => .inr ?_⟩
    by_contra hnot
    exact hready.proposals_ne_nil hop hnot hnone
  have hmem : sent ∈ proposals (op.events S w) := hsent ▸ List.mem_singleton_self sent
  constructor
  · rintro (hunderstands | hrefuses)
    · refine ⟨fun bundle' reply hlookup' hfailed => ?_, fun sent' hmem' => ⟨bundle, _, hlookup, ?_⟩, fun hsome sent' hmem' => ?_⟩
      · obtain ⟨-, rfl⟩ := Prod.mk.inj (Option.some.inj (hlookup.symm.trans hlookup'))
        cases hfailed.symm.trans hunderstands.answered
      · obtain rfl := List.mem_singleton.mp (hsent ▸ hmem')
        by_cases hfresh : ((toldPointer S w).pointer S.floatText).1 = []
        · exact .inr ⟨hunderstands.answered, hunderstands.pointer hfresh⟩
        · exact .inl (not_not.mp fun hstated => hfresh (hpointer.mpr hstated))
      · obtain rfl := List.mem_singleton.mp (hsent ▸ hmem')
        obtain ⟨token, htoken⟩ := Option.isSome_iff_exists.mp hsome
        obtain ⟨htold, hcredits⟩ := hrow token htoken
        refine ⟨_, htold, ?_⟩
        by_cases hstated : sent'.1.CreditsStated S.floatText (toldRow S w (w.client.bundle.getD []) token)
        · exact .inl hstated
        · exact .inr (hunderstands.row token htoken (hcredits.mpr hstated))
    · exact absurd hrefuses hnot
  · intro _ _ _ _ hrules
    refine .inl ⟨?_, fun hfresh => ?_, fun token htoken hnew => ?_⟩
    · rw [← Bool.not_eq_true]
      intro hfailed
      cases hsent.symm.trans (hrules.unanswered bundle _ hlookup hfailed)
    · obtain ⟨bundle', reply, hlookup', hcase⟩ := hrules.signed sent hmem
      obtain ⟨-, rfl⟩ := Prod.mk.inj (Option.some.inj (hlookup.symm.trans hlookup'))
      exact (hcase.resolve_left (hpointer.mp hfresh)).2
    · obtain ⟨htold, hcredits⟩ := hrow token htoken
      obtain ⟨reply, htold', hcase⟩ := hrules.credited (by rw [htoken, Option.isSome_some]) sent hmem
      obtain rfl := Option.some.inj (htold.symm.trans htold')
      exact hcase.resolve_left (hcredits.mp hnew)

/-- A client that is told of no pointer has none to refuse. -/
theorem accepts_of_pointerless {bundle : ByteString} (h : ((S.serve (.continuId bundle) w.env).1.pointer S.floatText).1 = []) :
    Accepts S w bundle := by
  intro e he
  rw [Client.bindOwnWalletOtsVersion, if_pos (.inl h)] at he
  cases he

section Example

theorem ready_loginWorld (replies : List Reply) : (loginWorld replies).Ready scripted sampleSecret sampleBundle where
  kem := fun _ _ => ⟨[], rfl⟩
  parameterSet := .inr rfl
  authenticated := rfl
  secret_eq := rfl
  bundle_eq := rfl
  plain := rfl
  cellSlug := rfl

def metaOp : UserOp := .createMeta [] [] []

theorem writable_metaOp : metaOp.Writable := ⟨rfl, rfl, by simp⟩

theorem userOp_lookups_unknownBundle :
    LookupRules metaOp integersOnly (metaOp.events scripted (loginWorld [unknownBundle, acceptance])) ∧
      (Understands scripted (loginWorld [unknownBundle, acceptance]) metaOp ∨
        Refuses scripted (loginWorld [unknownBundle, acceptance]) metaOp) := by
  obtain ⟨hanswered, hpointer⟩ : unknownBundle.failedQuery integersOnly = false ∧
      Response.userPointer (unknownBundle.continuId integersOnly).data = none := by decide +kernel
  have hrules := (userOp_lookups scripted (loginWorld [unknownBundle, acceptance]) metaOp).1
    (.inl ⟨hanswered, fun _ => hpointer, nofun⟩)
  exact ⟨hrules, (userOp_lookups scripted _ metaOp).2 sampleSecret sampleBundle (ready_loginWorld _) writable_metaOp hrules⟩

/-- A client without a node to ask signs as if its bundle were new, and credits as if it had no wallet. -/
theorem failed_lookups_send :
    ¬ LookupRules metaOp integersOnly (metaOp.events scripted (loginWorld [⟨500, []⟩, acceptance])) ∧
      ¬ LookupRules (.replenishToken (ascii "T") (.finite 1) []) integersOnly
        ((UserOp.replenishToken (ascii "T") (.finite 1) []).events scripted
          (loginWorld [unknownBundle, ⟨500, []⟩, acceptance])) := by
  constructor
  · intro hrules
    have hnot : ¬ Refuses scripted (loginWorld [⟨500, []⟩, acceptance]) metaOp := by
      rintro (hnot | ⟨token, htoken, -⟩)
      · exact hnot (accepts_of_pointerless rfl)
      · cases htoken
    have hsends := (ready_loginWorld [⟨500, []⟩, acceptance]).proposals_ne_nil writable_metaOp hnot
    obtain hnone | ⟨bundle, sent, -, -, hlookup, -⟩ := metaOp.sent_cases scripted (loginWorld [⟨500, []⟩, acceptance])
    · exact hsends hnone
    · exact hsends (hrules.unanswered bundle _ hlookup rfl)
  · intro hrules
    have hpointer : (unknownBundle.pointer integersOnly).1 = [] := by decide +kernel
    have hnot : ¬ Refuses scripted (loginWorld [unknownBundle, ⟨500, []⟩, acceptance])
        (.replenishToken (ascii "T") (.finite 1) []) := by
      rintro (hnot | ⟨token, -, hnot⟩)
      · exact hnot (accepts_of_pointerless hpointer)
      · exact hnot fun hfound => by cases hfound
    have hop : (UserOp.replenishToken (ascii "T") (.finite 1) []).Writable :=
      ⟨rfl, by simp, 1, by norm_num [toLongLong, signed], fun _ => by norm_num, fun hunits => absurd rfl hunits⟩
    have hsends := (ready_loginWorld [unknownBundle, ⟨500, []⟩, acceptance]).proposals_ne_nil hop hnot
    obtain hnone | ⟨bundle, sent, hsent, -, -, -, hrow⟩ :=
      (UserOp.replenishToken (ascii "T") (.finite 1) []).sent_cases scripted
        (loginWorld [unknownBundle, ⟨500, []⟩, acceptance])
    · exact hsends hnone
    · obtain ⟨htold, -⟩ := hrow (ascii "T") rfl
      obtain ⟨reply, htold', hcase⟩ := hrules.credited rfl sent (hsent ▸ List.mem_singleton_self sent)
      obtain rfl := Option.some.inj (htold.symm.trans htold')
      obtain ⟨place, hplace, -⟩ | ⟨hanswered, -⟩ := hcase
      · cases hplace
      · cases hanswered

end Example

end Main

end KnishIO
