import KnishIO.Client.MetaRuns

open ByteString

namespace KnishIO

/-- What a one-time key is derived from. -/
structure SigningKey where
  secret : ByteString
  token : ByteString
  position : ByteString
  otsVersion : Int
  deriving DecidableEq, Repr

/-- The key that signs a molecule. -/
def signingKey (secret : Secret) (m : Molecule) : Option SigningKey :=
  m.atoms.head?.map fun front => ⟨secret.bytes, front.token, front.position, m.signingOtsVersion⟩

/-- The position that the client reads from a reply. -/
def Event.names (F : Json.FloatText) (position : ByteString) : Event → Prop
  | .asked (.continuId _) reply =>
    (reply.pointer F).1 = position ∨
      ∃ p, Response.userPointer (reply.continuId F).data = some p ∧ p.position = position
  | .asked (.balance _ _ _) reply => (reply.tokenWallet F).position = position
  | _ => False

/-- The buffer wallet that the caller hands in. -/
def Op.givenWallet : Op → Option Wallet
  | .withdrawBufferToken _ _ sourceWallet => sourceWallet
  | _ => none

/-- One call of a run, with the states around it. -/
structure Call (E : Type) where
  op : Op
  before : World E
  after : World E

namespace Call

variable {E : Type}

/-- What happened in the call. -/
def events (c : Call E) : List Event := c.after.log.drop c.before.log.length

/-- The position came from the reply to a query of this call, or from its caller. -/
def supplied (S : Setting E) (c : Call E) (position : ByteString) : Prop :=
  c.op.givenWallet.map (·.position) = some position ∨ ∃ e ∈ c.events, e.names S.floatText position

end Call

/-- The calls of a run. -/
def calls {E : Type} (S : Setting E) : World E → List Op → List (Call E)
  | _, [] => []
  | w, op :: ops => ⟨op, w, applyOp S op w⟩ :: calls S (applyOp S op w) ops

section Discipline

variable {E : Type} {S : Setting E} {named : ByteString → Prop} {w t u : World E}

/-- The molecules sent between two states are signed at named positions or at positions drawn in between,
and only one of them at a position that is not named. -/
structure Disciplined (S : Setting E) (named : ByteString → Prop) (w t : World E) (events : List Event) : Prop where
  log : t.log = w.log ++ events
  drawn : w.drawn ≤ t.drawn
  source : ∀ secret m reply key, .proposed secret m reply ∈ events → signingKey secret m = some key →
    named key.position ∨ ∃ k, w.drawn ≤ k ∧ k < t.drawn ∧ key.position = (S.draw k).bytes
  unique : ∀ secret m reply key secret' m' reply' key', .proposed secret m reply ∈ events →
    .proposed secret' m' reply' ∈ events → signingKey secret m = some key → signingKey secret' m' = some key' →
      ¬ named key.position → ¬ named key'.position → m = m'

theorem Disciplined.silent {events : List Event} (hlog : t.log = w.log ++ events) (hdrawn : w.drawn ≤ t.drawn)
    (hsilent : ∀ secret m reply, .proposed secret m reply ∉ events) : Disciplined S named w t events :=
  ⟨hlog, hdrawn, fun _ _ _ _ h _ => absurd h (hsilent _ _ _), fun _ _ _ _ _ _ _ _ h _ _ _ _ _ => absurd h (hsilent _ _ _)⟩

theorem Quiet.disciplined (h : Quiet S w t) : ∃ events, ∀ named, Disciplined S named w t events := by
  obtain ⟨events, hlog, hasked⟩ := h.log
  refine ⟨events, fun named => .silent hlog h.drawn fun secret m reply hmem => ?_⟩
  obtain ⟨request, reply', heq⟩ := hasked _ hmem
  cases heq

/-- One molecule is sent, after queries. -/
theorem Disciplined.single (asked : List Event) {secret : Secret} {m : Molecule} {reply : Reply}
    (hlog : t.log = w.log ++ (asked ++ [.proposed secret m reply])) (hdrawn : w.drawn ≤ t.drawn)
    (hasked : ∀ e ∈ asked, ∃ request reply, e = Event.asked request reply)
    (hsource : ∀ key, signingKey secret m = some key →
      named key.position ∨ ∃ k, w.drawn ≤ k ∧ k < t.drawn ∧ key.position = (S.draw k).bytes) :
    Disciplined S named w t (asked ++ [.proposed secret m reply]) := by
  have honly : ∀ secret' m' reply', Event.proposed secret' m' reply' ∈ asked ++ [.proposed secret m reply] →
      secret' = secret ∧ m' = m := by
    intro secret' m' reply' hmem
    obtain hmem | hmem := List.mem_append.mp hmem
    · obtain ⟨_, _, heq⟩ := hasked _ hmem
      cases heq
    · cases List.mem_singleton.mp hmem
      exact ⟨rfl, rfl⟩
  refine ⟨hlog, hdrawn, ?_, ?_⟩
  · intro secret' m' reply' key hmem hkey
    obtain ⟨rfl, rfl⟩ := honly secret' m' reply' hmem
    exact hsource key hkey
  · intro secret₁ m₁ reply₁ key₁ secret₂ m₂ reply₂ key₂ hmem₁ hmem₂ _ _ _ _
    rw [(honly _ _ _ hmem₁).2, (honly _ _ _ hmem₂).2]

theorem Disciplined.mono {named' : ByteString → Prop} {events : List Event} (h : Disciplined S named w t events)
    (hnamed : ∀ position, named position → named' position) : Disciplined S named' w t events := by
  refine ⟨h.log, h.drawn, fun secret m reply key hmem hkey => ?_, ?_⟩
  · exact (h.source secret m reply key hmem hkey).imp_left (hnamed _)
  · intro secret m reply key secret' m' reply' key' hmem hmem' hkey hkey' hnot hnot'
    exact h.unique secret m reply key secret' m' reply' key' hmem hmem' hkey hkey' (hnot ∘ hnamed _) (hnot' ∘ hnamed _)

/-- A part whose molecules are all signed at named positions may go first. -/
theorem Disciplined.append {first second : List Event} (h₁ : Disciplined S named w u first)
    (hnamed : ∀ secret m reply key, .proposed secret m reply ∈ first → signingKey secret m = some key → named key.position)
    (h₂ : Disciplined S named u t second) : Disciplined S named w t (first ++ second) := by
  refine ⟨?_, h₁.drawn.trans h₂.drawn, ?_, ?_⟩
  · rw [h₂.log, h₁.log, List.append_assoc]
  · intro secret m reply key hmem hkey
    obtain hmem | hmem := List.mem_append.mp hmem
    · exact .inl (hnamed secret m reply key hmem hkey)
    · obtain h | ⟨k, hk, hlt, heq⟩ := h₂.source secret m reply key hmem hkey
      · exact .inl h
      · exact .inr ⟨k, h₁.drawn.trans hk, hlt, heq⟩
  · intro secret m reply key secret' m' reply' key' hmem hmem' hkey hkey' hnot hnot'
    obtain hmem | hmem := List.mem_append.mp hmem
    · exact absurd (hnamed secret m reply key hmem hkey) hnot
    obtain hmem' | hmem' := List.mem_append.mp hmem'
    · exact absurd (hnamed secret' m' reply' key' hmem' hkey') hnot'
    · exact h₂.unique secret m reply key secret' m' reply' key' hmem hmem' hkey hkey' hnot hnot'

end Discipline

section Operations

variable {E : Type} {S : Setting E} {w t u : World E} {given : Option Wallet}

/-- The position of a call's signer, relative to the events of the call. -/
def Supplied (F : Json.FloatText) (given : Option Wallet) (events : List Event) (position : ByteString) : Prop :=
  given.map (·.position) = some position ∨ ∃ e ∈ events, e.names F position

theorem SignedBy.key_position {H : Shake256} {cellSlug : ByteString} {source remainder : Wallet} {b : Molecule.Builder}
    {secret : Secret} {m : Molecule} (h : SignedBy H cellSlug source remainder b secret m) {key : SigningKey}
    (hkey : signingKey secret m = some key) : key.position = b.source.position := by
  obtain ⟨front, rest, hatoms, hplace⟩ := h.front
  rw [signingKey, hatoms] at hkey
  obtain rfl := Option.some.inj hkey
  exact congrArg Prod.fst hplace

/-- The pointer query stands in the history of what follows it. -/
theorem Quiet.mem_asked {request : Request} (h : Quiet S (w.asked S request) t) {events : List Event}
    (hlog : t.log = w.log ++ events) : .asked request (S.serve request w.env).1 ∈ events := by
  obtain ⟨later, hlater, _⟩ := h.log
  have hall : w.log ++ events = w.log ++ (.asked request (S.serve request w.env).1 :: later) := by
    rw [← hlog, hlater]
    exact (List.append_assoc _ _ _)
  rw [List.append_cancel_left hall]
  exact List.mem_cons_self

theorem Supplied.mono {F : Json.FloatText} {first second : List Event} {position : ByteString}
    (h : Supplied F given first position) (hsub : first ⊆ second) : Supplied F given second position :=
  h.imp_right fun ⟨e, he, hnames⟩ => ⟨e, hsub he, hnames⟩

/-- A call that sends at most one molecule is disciplined as soon as the position of its signer is. -/
theorem Outcome.disciplined {P : World E → Secret → Molecule → Prop} (h : Outcome S w P t)
    (hP : ∀ u secret m events key, Quiet S w u → P u secret m → u.log = w.log ++ events → signingKey secret m = some key →
      Supplied S.floatText given events key.position ∨
        ∃ k, w.drawn ≤ k ∧ k < u.drawn ∧ key.position = (S.draw k).bytes) :
    ∃ events, Disciplined S (Supplied S.floatText given events) w t events := by
  cases h with
  | quiet hquiet =>
    obtain ⟨events, hevents⟩ := hquiet.disciplined
    exact ⟨events, hevents _⟩
  | @sent u secret m hquiet hsecret hm =>
    obtain ⟨events, hlog, hasked⟩ := hquiet.log
    refine ⟨events ++ [.proposed secret m (S.serve (.proposeMolecule m) u.env).1], ?_⟩
    refine .single events ?_ hquiet.drawn hasked fun key hkey => ?_
    · rw [← List.append_assoc, ← hlog]
      rfl
    · exact (hP u secret m events key hquiet hm hlog hkey).imp_left fun hnamed =>
        hnamed.mono (List.subset_append_left _ _)

/-- A USER operation signs at the position of the pointer it was told, or at one that it drew. -/
theorem IsUserSigned.position {secret : Secret} {m : Molecule} (h : IsUserSigned S w u secret m) {events : List Event}
    (hlog : u.log = w.log ++ events) {key : SigningKey} (hkey : signingKey secret m = some key) :
    Supplied S.floatText given events key.position ∨
      ∃ k, w.drawn ≤ k ∧ k < u.drawn ∧ key.position = (S.draw k).bytes := by
  obtain ⟨bundle, cellSlug, mlKemParameterSet, source, remainder, b, hsigned⟩ := h
  have hposition : key.position = source.position := hsigned.source_eq ▸ hsigned.signed.key_position hkey
  obtain ⟨k, hfrom, hbefore, _⟩ := hsigned.remainder_of
  cases hsigned.source_of with
  | fresh _ hnew =>
    obtain ⟨_, _, _, _, rfl⟩ := Wallet.new_ok hnew
    exact .inr ⟨w.drawn, le_rfl, lt_of_le_of_lt hfrom hbefore, hposition⟩
  | pointer version _ _ hnew =>
    obtain ⟨_, _, _, _, rfl⟩ := Wallet.new_ok hnew
    exact .inl (.inr ⟨_, hsigned.asked.mem_asked hlog, .inl hposition.symm⟩)

/-- A value operation signs at the position of its caller's wallet, or of the row it was told. -/
theorem IsValueSigned.position {secret : Secret} {m : Molecule} (h : IsValueSigned S given w u secret m)
    {events : List Event} (hlog : u.log = w.log ++ events) {key : SigningKey} (hkey : signingKey secret m = some key) :
    Supplied S.floatText given events key.position := by
  obtain ⟨cellSlug, source, remainder, b, hsigned⟩ := h
  have hposition : key.position = source.position := hsigned.source_eq ▸ hsigned.signed.key_position hkey
  obtain hgiven | ⟨bundle, token, buffer, mlKemParameterSet, _, hasked, hrow⟩ := hsigned.asked
  · exact .inl (by rw [hgiven, Option.map_some, hposition])
  · obtain ⟨version, ledger, _, hnew, hledger⟩ := hrow.ledger
    have hsource : source.position = ledger.position := by rw [hledger]
    obtain ⟨_, _, _, _, rfl⟩ := Wallet.new_ok hnew
    exact .inr ⟨_, hasked.mem_asked hlog, (hposition.trans hsource).symm⟩

end Operations

section Login

variable {E : Type} {S : Setting E} {w t u : World E} {secret : Secret} {cellSlug : ByteString} {encrypt : Bool}
  {named : ByteString → Prop}

/-- An authorization molecule is signed at the position of its source. -/
theorem Authorizes.disciplined {v : World E} {source : Wallet} {r : Throws Response}
    (h : Authorizes S secret cellSlug encrypt source w r t) (hdrawn : v.drawn ≤ w.drawn) (hlog : w.log = v.log)
    (hsource : named source.position ∨ ∃ k, v.drawn ≤ k ∧ k ≤ w.drawn ∧ source.position = (S.draw k).bytes) :
    ∃ m reply, Disciplined S named v t [.proposed secret m reply] ∧
      ∀ key, signingKey secret m = some key → key.position = source.position := by
  obtain ⟨u, m, hsigned, rfl, rfl⟩ := h
  obtain ⟨remainder, _, hby⟩ := hsigned.signed
  obtain rfl : u = { w with drawn := w.drawn + 1 } := hsigned.drawn
  have hposition : ∀ key, signingKey secret m = some key → key.position = source.position :=
    fun key hkey => hby.key_position hkey
  refine ⟨m, World.verdict S { w with drawn := w.drawn + 1 } m, ?_, hposition⟩
  refine .single [] ?_ (hdrawn.trans (Nat.le_succ _)) (by simp) fun key hkey => ?_
  · rw [← hlog]
    rfl
  · rw [hposition key hkey]
    exact hsource.imp_right fun ⟨k, hfrom, hto, heq⟩ => ⟨k, hfrom, Nat.lt_succ_of_le hto, heq⟩

/-- A login from a fresh AUTH wallet signs at most once, at a position that it draws. -/
theorem FreshOutcome.disciplined {r : Throws Response} (h : FreshOutcome S secret cellSlug encrypt w r t) :
    ∃ events, Disciplined S named w t events := by
  cases h with
  | failed hquiet =>
    obtain ⟨events, hevents⟩ := hquiet.disciplined
    exact ⟨events, hevents named⟩
  | @sent source _ _ hsource hsent =>
    obtain ⟨_, _, _, _, rfl⟩ := Wallet.new_ok hsource
    obtain ⟨m, reply, hevents, _⟩ := hsent.disciplined (v := w) (Nat.le_succ _) rfl
      (.inr ⟨w.drawn, le_rfl, Nat.le_succ _, rfl⟩)
    exact ⟨[.proposed secret m reply], hevents⟩

theorem LoginOutcome.disciplined {pointer : Option Response.ContinuID} {r : Throws Response}
    (h : LoginOutcome S secret cellSlug encrypt w pointer r t)
    (hnamed : ∀ p, pointer = some p → named p.position) : ∃ events, Disciplined S named w t events := by
  cases h with
  | failed hquiet =>
    obtain ⟨events, hevents⟩ := hquiet.disciplined
    exact ⟨events, hevents named⟩
  | fresh _ houtcome => exact houtcome.disciplined
  | settled hpointer hsource hsent _ =>
    obtain ⟨_, _, hnew⟩ := hsource.ledger
    obtain ⟨_, _, _, _, rfl⟩ := Wallet.new_ok hnew
    obtain ⟨m, reply, hevents, _⟩ := hsent.disciplined le_rfl rfl (.inl (hnamed _ hpointer))
    exact ⟨_, hevents⟩
  | fallback hpointer hsource hsent _ houtcome =>
    obtain ⟨_, _, hnew⟩ := hsource.ledger
    obtain ⟨_, _, _, _, rfl⟩ := Wallet.new_ok hnew
    -- the first molecule is signed at the pointer, so the second one may be signed at a drawn position
    obtain ⟨m, reply, hfirst, hposition⟩ := hsent.disciplined le_rfl rfl (.inl (hnamed _ hpointer))
    obtain ⟨events, hsecond⟩ : ∃ events, Disciplined S named _ t events := houtcome.disciplined
    refine ⟨_, hfirst.append (fun secret' m' reply' key hmem hkey => ?_) hsecond⟩
    cases List.mem_singleton.mp hmem
    rw [hposition key hkey]
    exact hnamed _ hpointer

/-- No molecule is sent while the secret is set. -/
theorem SetSecretOutcome.disciplined {bytes : ByteString} {r : Throws Unit} (h : SetSecretOutcome S bytes w r t) :
    ∃ events, (∀ named, Disciplined S named w t events) ∧ ∀ secret m reply, .proposed secret m reply ∉ events := by
  cases h with
  | invalid _ => exact ⟨[], fun _ => .silent (by simp) le_rfl (by simp), by simp⟩
  | @failed held _ _ _ _ hquiet =>
    obtain ⟨events, hlog, hasked⟩ := hquiet.log
    have hnone : ∀ secret m reply, .proposed secret m reply ∉ .identified held :: events := by
      intro secret m reply hmem
      obtain heq | hmem := List.mem_cons.mp hmem
      · cases heq
      · obtain ⟨_, _, heq⟩ := hasked _ hmem
        cases heq
    refine ⟨.identified held :: events, fun _ => .silent ?_ hquiet.drawn hnone, hnone⟩
    rw [hlog]
    exact List.append_assoc _ _ _
  | @set held _ _ _ => exact ⟨[.identified held], fun _ => .silent rfl (Nat.le_succ _) (by simp), by simp⟩

theorem Identified.disciplined {given : Option ByteString} (h : Identified S given w u secret) :
    ∃ events, (∀ named, Disciplined S named w u events) ∧ ∀ secret m reply, .proposed secret m reply ∉ events := by
  obtain ⟨_, rfl⟩ | ⟨bytes, wallet, _, hsecret, hwallet, rfl⟩ := h.step
  · exact ⟨[], fun _ => .silent (by simp) le_rfl (by simp), by simp⟩
  · exact (SetSecretOutcome.set hsecret hwallet).disciplined

/-- The query of a login names the pointer that it is signed at. -/
theorem AuthOutcome.disciplined {given cellSlug : Option ByteString} {r : Throws Response}
    (h : AuthOutcome S given cellSlug encrypt w r t) :
    ∃ events, Disciplined S (Supplied S.floatText none events) w t events := by
  have hasked (u : World E) (bundle : ByteString) : Quiet S u (u.asked S (.continuId bundle)) :=
    .ask (.continuId bundle) rfl .refl
  -- the state in which the query is answered, whatever is done with the answer
  have hquery {u : World E} {secret : Secret} (hu : Identified S given w u secret) (bundle : ByteString) :
      ∃ events, Disciplined S (Supplied S.floatText none events) w (u.asked S (.continuId bundle)) events := by
    obtain ⟨first, hfirst, hsilent⟩ := hu.disciplined
    obtain ⟨second, hsecond⟩ := (hasked u bundle).disciplined
    exact ⟨first ++ second, (hfirst _).append (fun _ _ _ _ hmem => absurd hmem (hsilent _ _ _)) (hsecond _)⟩
  cases h with
  | unidentified hstep =>
    obtain ⟨_, _, rfl⟩ | ⟨bytes, _, houtcome⟩ := hstep
    · exact ⟨[], .silent (by simp) le_rfl (by simp)⟩
    · obtain ⟨events, hevents, _⟩ := houtcome.disciplined
      exact ⟨events, hevents _⟩
  | unbundled hu _ =>
    obtain ⟨events, hevents, _⟩ := hu.disciplined
    exact ⟨events, hevents _⟩
  | unwritable hu _ _ => exact hquery hu _
  | queryFailed hu _ _ => exact hquery hu _
  | @login u secret bundle _ _ hu _ _ houtcome =>
    obtain ⟨first, hfirst, hsilent⟩ := hu.disciplined
    let answer := Event.asked (.continuId bundle) (S.serve (.continuId bundle) u.env).1
    obtain ⟨last, hlast⟩ : ∃ last, Disciplined S (fun position => answer.names S.floatText position)
        (u.asked S (.continuId bundle)) t last := houtcome.disciplined fun p hp => .inr ⟨p, hp, rfl⟩
    have hanswered : Disciplined S (fun position => answer.names S.floatText position) u t ([answer] ++ last) := by
      refine Disciplined.append (u := u.asked S (.continuId bundle)) (.silent rfl le_rfl ?_) ?_ hlast
      · intro secret m reply hmem
        exact Event.noConfusion (List.mem_singleton.mp hmem)
      · intro secret m reply key hmem
        exact Event.noConfusion (List.mem_singleton.mp hmem)
    refine ⟨first ++ ([answer] ++ last), (hfirst _).append (fun _ _ _ _ hmem => absurd hmem (hsilent _ _ _)) ?_⟩
    exact hanswered.mono fun position hnames => .inr ⟨answer, by simp, hnames⟩

end Login

section Run

variable {E : Type} {S : Setting E} {w : World E}

/-- What one call signs with. -/
theorem Op.disciplined (S : Setting E) (op : Op) (w : World E) :
    ∃ events, Disciplined S (Supplied S.floatText op.givenWallet events) w (applyOp S op w) events := by
  have huser {t : World E} (h : Outcome S w (IsUserSigned S w) t) :
      ∃ events, Disciplined S (Supplied S.floatText none events) w t events :=
    h.disciplined fun _ _ _ _ _ _ hsigned hlog hkey => hsigned.position hlog hkey
  have hvalue {given : Option Wallet} {t : World E} (h : Outcome S w (IsValueSigned S given w) t) :
      ∃ events, Disciplined S (Supplied S.floatText given events) w t events :=
    h.disciplined fun _ _ _ _ _ _ hsigned hlog hkey => .inl (hsigned.position hlog hkey)
  cases op with
  | setSecret secret =>
    obtain ⟨events, hevents, _⟩ := (setSecret_outcome S w secret).disciplined
    exact ⟨events, hevents _⟩
  | switchEncryption encrypt =>
    exact ⟨[], .silent (List.append_nil _).symm le_rfl (by simp)⟩
  | requestAuthToken secret cellSlug encrypt => exact (requestAuthToken_outcome S w secret cellSlug encrypt).disciplined
  | createToken token amount tokenMeta units => exact huser (outcome_createToken token amount tokenMeta units)
  | createWallet token => exact huser (outcome_createWallet token)
  | createMeta metaType metaId metas => exact huser (outcome_createMeta metaType metaId metas)
  | claimShadowWallet token batchId => exact huser (outcome_claimShadowWallet token batchId)
  | transferToken bundleHash token amount batchId units =>
    exact hvalue (outcome_transferToken bundleHash token amount batchId units)
  | transferTokens token recipients => exact hvalue (outcome_transferTokens token recipients)
  | burnToken token amount units => exact hvalue (outcome_burnToken token amount units)
  | depositBufferToken token amount tradeRates => exact hvalue (outcome_depositBufferToken token amount tradeRates)
  | withdrawBufferToken token amount sourceWallet => exact hvalue (outcome_withdrawBufferToken token amount sourceWallet)
  | replenishToken token amount units => exact huser (outcome_replenishToken token amount units)
  | fuseToken bundleHash tokenSlug newTokenUnitId fusedTokenUnitIds =>
    exact hvalue (outcome_fuseToken bundleHash tokenSlug newTokenUnitId fusedTokenUnitIds)

/-- The calls of a run follow one another, and draw their values one after another. -/
theorem mem_calls {ops : List Op} {c : Call E} (hc : c ∈ calls S w ops) :
    Disciplined S (c.supplied S) c.before c.after c.events ∧ w.drawn ≤ c.before.drawn ∧
      c.after.drawn ≤ (runOps S w ops).drawn := by
  have hstep (op : Op) (w : World E) :
      Disciplined S (Call.supplied S ⟨op, w, applyOp S op w⟩) w (applyOp S op w) (Call.events ⟨op, w, applyOp S op w⟩) := by
    obtain ⟨events, hevents⟩ := op.disciplined S w
    have heq : Call.events ⟨op, w, applyOp S op w⟩ = events := by
      rw [Call.events, hevents.log, List.drop_left]
    rw [heq]
    refine hevents.mono fun position hsupplied => ?_
    rw [Call.supplied, heq]
    exact hsupplied
  have hdrawn (w : World E) (ops : List Op) : w.drawn ≤ (runOps S w ops).drawn := by
    induction ops generalizing w with
    | nil => exact le_rfl
    | cons op ops ih => exact (hstep op w).drawn.trans (ih _)
  induction ops generalizing w with
  | nil => simp [calls] at hc
  | cons op ops ih =>
    obtain rfl | hc := List.mem_cons.mp hc
    · exact ⟨hstep op w, le_rfl, hdrawn _ ops⟩
    · obtain ⟨hevents, hbefore, hafter⟩ := ih hc
      exact ⟨hevents, (hstep op w).drawn.trans hbefore, hafter⟩

theorem calls_ordered (S : Setting E) (w : World E) (ops : List Op) :
    (calls S w ops).Pairwise fun c c' => c.after.drawn ≤ c'.before.drawn := by
  induction ops generalizing w with
  | nil => exact .nil
  | cons op ops ih => exact .cons (fun c hc => (mem_calls hc).2.1) (ih _)

/-- In a run whose draws are pairwise distinct, one key signs two molecules only at a position that the
reply to a query of one of the two calls, or its caller, supplied. -/
theorem signingKey_reused (S : Setting E) (w : World E) (ops : List Op)
    (hdraws : ∀ i j, w.drawn ≤ i → i < (runOps S w ops).drawn → w.drawn ≤ j → j < (runOps S w ops).drawn →
      (S.draw i).bytes = (S.draw j).bytes → i = j)
    {c₁ c₂ : Call E} (h₁ : c₁ ∈ calls S w ops) (h₂ : c₂ ∈ calls S w ops) {secret₁ secret₂ : Secret} {m₁ m₂ : Molecule}
    {reply₁ reply₂ : Reply} (hm₁ : .proposed secret₁ m₁ reply₁ ∈ c₁.events)
    (hm₂ : .proposed secret₂ m₂ reply₂ ∈ c₂.events) (hne : m₁.molecularHash ≠ m₂.molecularHash) {key : SigningKey}
    (hkey₁ : signingKey secret₁ m₁ = some key) (hkey₂ : signingKey secret₂ m₂ = some key) :
    c₁.supplied S key.position ∨ c₂.supplied S key.position := by
  by_contra hnot
  obtain ⟨hnot₁, hnot₂⟩ := not_or.mp hnot
  obtain ⟨hevents₁, hfrom₁, hto₁⟩ := mem_calls h₁
  obtain ⟨hevents₂, hfrom₂, hto₂⟩ := mem_calls h₂
  obtain ⟨i, hi, hi', hposition₁⟩ := (hevents₁.source _ _ _ _ hm₁ hkey₁).resolve_left hnot₁
  obtain ⟨j, hj, hj', hposition₂⟩ := (hevents₂.source _ _ _ _ hm₂ hkey₂).resolve_left hnot₂
  obtain rfl : i = j := hdraws i j (hfrom₁.trans hi) (hi'.trans_le hto₁) (hfrom₂.trans hj) (hj'.trans_le hto₂)
    (hposition₁.symm.trans hposition₂)
  by_cases hsame : c₁ = c₂
  · subst hsame
    exact hne (congrArg Molecule.molecularHash
      (hevents₁.unique _ _ _ _ _ _ _ _ hm₁ hm₂ hkey₁ hkey₂ hnot₁ hnot₂))
  · -- two calls draw from disjoint ranges
    obtain ⟨k₁, hk₁, rfl⟩ := List.mem_iff_getElem.mp h₁
    obtain ⟨k₂, hk₂, rfl⟩ := List.mem_iff_getElem.mp h₂
    have hordered := List.pairwise_iff_getElem.mp (calls_ordered S w ops)
    obtain hlt | heq | hlt := Nat.lt_trichotomy k₁ k₂
    · have := hordered k₁ k₂ hk₁ hk₂ hlt
      omega
    · exact hsame (by simp only [heq])
    · have := hordered k₂ k₁ hk₂ hk₁ hlt
      omega

end Run

section Example

variable {H : Shake256} {built m : Molecule}

/-- A signed form keeps the key. -/
theorem Molecule.Completes.signingKey_eq (h : built.Completes H m) (secret : Secret) :
    signingKey secret m = signingKey secret built := by
  have hversion : m.signingOtsVersion = built.signingOtsVersion := by
    rw [Molecule.signingOtsVersion, Molecule.signingOtsVersion, h.source]
  have hfront := congrArg (fun atoms => atoms.head?.map fun a : Atom =>
    (⟨secret.bytes, a.token, a.position, built.signingOtsVersion⟩ : SigningKey)) h.atoms
  simp only [List.head?_map, Option.map_map] at hfront
  rw [signingKey, signingKey, hversion]
  exact hfront

/-- The molecular hash of a signed form whose atoms carry no version. -/
theorem Molecule.Completes.hash_eq (h : built.Completes H m) (hversioned : Atom.allVersioned built.atoms = false) :
    m.molecularHash = Atom.base17 (shake256 H (Atom.molecularSponge built.atoms) 256) := by
  obtain ⟨-, -, hhash, -⟩ := Molecule.check_ok_iff.mp h.check
  obtain ⟨-, -, digest, hdigest, hbase⟩ := Molecule.verifyMolecularHash_ok_iff.mp hhash
  rw [← Atom.hashAtoms_unsigned, h.atoms, Atom.hashAtoms_unsigned, Atom.hashAtoms, if_neg (by simp [hversioned])] at hdigest
  rw [← hbase, ← Except.ok.inj hdigest]

/-- A hash that tells texts with an exclamation mark from the others. -/
def markedHash : Shake256 := ⟨fun s size => List.replicate size (if 33 ∈ s then 1 else 0), by simp⟩

theorem shake256_marked (s : ByteString) : shake256 markedHash s 256 = List.replicate 32 (if 33 ∈ s then 1 else 0) := rfl

theorem length_as : (List.replicate 64 (97 : UInt8)).length = 64 := by simp

theorem length_bs : (List.replicate 64 (98 : UInt8)).length = 64 := by simp

theorem hex_as : ∀ c ∈ List.replicate 64 (97 : UInt8), isHexLower c = true := by simp [isHexLower]

theorem hex_bs : ∀ c ∈ List.replicate 64 (98 : UInt8), isHexLower c = true := by simp [isHexLower]

/-- The node answers from a list; the first two draws differ. -/
def twoDraws : Setting (List Reply) where
  hash := markedHash
  kem := oneKey
  floatText := integersOnly
  draw k := if k = 0 then ⟨List.replicate 64 97, length_as, hex_as⟩ else ⟨List.replicate 64 98, length_bs, hex_bs⟩
  clock := fun _ _ => 0
  serve := fun _ replies => (replies.headD ⟨0, []⟩, replies.tail)

/-- A pointer at one position, without an address. -/
def pointerReply : Reply :=
  ⟨200, ascii "\x7b\"data\":\x7b\"ContinuId\":\x7b\"position\":\"" ++ List.replicate 64 99 ++ ascii "\"\x7d\x7d\x7d"⟩

def rejection : Reply :=
  ⟨200, ascii "\x7b\"data\":\x7b\"ProposeMolecule\":\x7b\"status\":\"rejected\"\x7d\x7d\x7d"⟩

theorem pointer_pointerReply : pointerReply.pointer integersOnly = (List.replicate 64 99, []) := by decide +kernel

/-- The pointer is told twice, and both molecules are rejected. -/
def staleWorld : World (List Reply) := { client := sampleClient, env := [pointerReply, rejection, pointerReply, rejection] }

theorem signingKey_metaMolecule (cellSlug : ByteString) (clock : Nat → Int64) (source remainder : Wallet) (metas : Metas)
    (metaType metaId : ByteString) (secret : Secret) :
    signingKey secret (metaMolecule cellSlug clock source remainder metas metaType metaId) =
      some ⟨secret.bytes, source.token, source.position, source.otsVersion⟩ := rfl

/-- Only the type of the metadata can put the mark into the hashed text. -/
theorem marked_iff (metaType : ByteString) {source remainder : Wallet} {p q : ByteString} {v v' : Int}
    (hsource : source.Made markedHash sampleSecret.bytes (ascii "USER") p v)
    (hremainder : remainder.Made markedHash sampleSecret.bytes (ascii "USER") q v') (hkey : remainder.mlkemPublicKey = [])
    (hp : ∀ c ∈ p, isHexLower c = true) (hq : ∀ c ∈ q, isHexLower c = true) :
    33 ∈ Atom.molecularSponge (metaMolecule [] (fun _ => 0) source remainder [] metaType []).atoms ↔ 33 ∈ metaType := by
  have hhex {s : ByteString} (hs : ∀ c ∈ s, isHexLower c = true) : 33 ∉ s := fun h => absurd (hs 33 h) (by decide)
  have hbundle : 33 ∉ remainder.bundle := by
    rw [hremainder.bundle_eq]
    exact hhex fun c hc => isHexLower_shake256Hex hc
  have hfixed : 33 ∉ Decimal.ofNat 2 ∧ 33 ∉ Decimal.ofInt 0 ∧ 33 ∉ ascii "M" ∧ 33 ∉ ascii "I" ∧ 33 ∉ ascii "USER" ∧
      33 ∉ ascii "walletBundle" ∧ 33 ∉ ascii "previousPosition" ∧ 33 ∉ ascii "characters" ∧ 33 ∉ ascii "BASE64" := by
    decide +kernel
  simp [Atom.molecularSponge, metaMolecule, frontMolecule, Molecule.continuIdAtom, Atom.new, Atom.sponge, hsource.position_eq,
    hsource.token_eq, hremainder.position_eq, hremainder.token_eq, hkey, hbundle, hhex hsource.address_hex,
    hhex hremainder.address_hex, hhex hp, hhex hq, hfixed]

/-- The state after a metadata operation that is told that pointer. -/
def World.stale (w : World (List Reply)) (m : Molecule) : World (List Reply) :=
  ({ w.asked twoDraws (.continuId (List.replicate 64 48)) with drawn := w.drawn + 1 } : World (List Reply)).proposed
    twoDraws sampleSecret m

/-- Told that pointer, a metadata operation signs with the key of its position. -/
theorem createMeta_stale {w : World (List Reply)} {replies : List Reply} {metaType : ByteString}
    (hclient : w.client = sampleClient) (henv : w.env = pointerReply :: replies) (hmetaType : Utf8.valid metaType = true) :
    ∃ m, ((createMeta twoDraws metaType [] []).exec w).2 = w.stale m ∧
      signingKey sampleSecret m = some ⟨sampleSecret.bytes, ascii "USER", List.replicate 64 99, 1⟩ ∧
      m.molecularHash = Atom.base17 (List.replicate 32 (if 33 ∈ metaType then 1 else 0)) := by
  obtain ⟨client, env, drawn, log⟩ := w
  obtain rfl : client = sampleClient := hclient
  obtain rfl : env = pointerReply :: replies := henv
  have hkem (set : Int) (seed : ByteString) : ∃ publicKey, oneKey.publicKey set seed = some publicKey := ⟨[], rfl⟩
  have hposition : (List.replicate 64 99 : ByteString) ≠ [] := by simp
  have hdrawn : (twoDraws.draw drawn).bytes ≠ [] :=
    List.ne_nil_of_length_pos ((twoDraws.draw drawn).length_eq ▸ by norm_num)
  obtain ⟨source, hsource⟩ : ∃ source, Wallet.new markedHash oneKey sampleSecret.bytes (ascii "USER") (List.replicate 64 99)
      1024 1 = .ok source := Wallet.new_exists hkem _ sampleSecret.nonempty hposition (.inr rfl) (.inl rfl)
  obtain ⟨remainder, hremainder⟩ : ∃ remainder, Wallet.new markedHash oneKey sampleSecret.bytes (ascii "USER")
      (twoDraws.draw drawn).bytes 1024 1 = .ok remainder :=
    Wallet.new_exists hkem _ sampleSecret.nonempty hdrawn (.inr rfl) (.inl rfl)
  have hsourceMade := Wallet.made_new hsource
  have hremainderMade := Wallet.made_new hremainder
  have hkey : remainder.mlkemPublicKey = [] := by
    obtain ⟨key, mlkemPublicKey, -, hderive, rfl⟩ := Wallet.new_ok hremainder
    exact (Except.ok.inj hderive).symm
  have hutf8 : Utf8.valid (twoDraws.draw drawn).bytes = true :=
    Utf8.valid_of_ascii fun c hc => Molecule.isHexLower_ascii ((twoDraws.draw drawn).hex c hc)
  have hsubmittable : Submittable markedHash sampleSecret (metaMolecule [] (fun _ => 0) source remainder [] metaType []) :=
    submittable_metaMolecule hsourceMade hremainderMade (by decide) hutf8 rfl hmetaType rfl (by simp) _
  have hversion : sampleClient.bindOwnWalletOtsVersion markedHash (ascii "USER") (List.replicate 64 99) [] = .ok 1 := by
    rw [Client.bindOwnWalletOtsVersion, if_pos (.inr rfl)]
    rfl
  have hfound : (continuIdSourceWallet twoDraws (List.replicate 64 48) 1024).exec
      ⟨sampleClient, pointerReply :: replies, drawn, log⟩ = (.ok source, World.asked twoDraws
        ⟨sampleClient, pointerReply :: replies, drawn, log⟩ (.continuId (List.replicate 64 48))) :=
    exec_continuIdSourceWallet_at rfl pointer_pointerReply hposition hversion hsource
  have hsuccessor : sampleClient.config.successorOtsVersion source.otsVersion = 1 := by
    rw [hsourceMade.otsVersion_eq]
    rfl
  rw [← hsuccessor] at hremainder
  obtain ⟨m, hcompletes, hrun⟩ := createMeta_sends (w := ⟨sampleClient, pointerReply :: replies, drawn, log⟩) rfl rfl rfl rfl
    hfound rfl hremainder hsubmittable
  have hsigned : (metaMolecule [] (fun _ => 0) source remainder [] metaType []).Completes markedHash m := hcompletes
  have hversioned : Atom.allVersioned (metaMolecule [] (fun _ => 0) source remainder [] metaType []).atoms = false := rfl
  refine ⟨m, hrun, ?_, ?_⟩
  · rw [hsigned.signingKey_eq, signingKey_metaMolecule, hsourceMade.token_eq, hsourceMade.position_eq,
      hsourceMade.otsVersion_eq]
  · have hhex : ∀ c ∈ (List.replicate 64 99 : ByteString), isHexLower c = true := fun c hc => List.eq_of_mem_replicate hc ▸ rfl
    have hmarked := marked_iff metaType hsourceMade hremainderMade hkey hhex (twoDraws.draw drawn).hex
    rw [hsigned.hash_eq hversioned, shake256_marked]
    simp only [hmarked]

theorem applyOp_createMeta {E : Type} (S : Setting E) (w : World E) (metaType metaId : ByteString) (metas : Metas) :
    applyOp S (.createMeta metaType metaId metas) w = ((createMeta S metaType metaId metas).exec w).2 := rfl

def staleOps : List Op := [.createMeta (ascii "!") [] [], .createMeta (ascii "?") [] []]

/-- Two metadata operations of one run that are told the same pointer sign two molecules with one key. -/
theorem stale_run : ∃ m₁ m₂,
    calls twoDraws staleWorld staleOps = [⟨.createMeta (ascii "!") [] [], staleWorld, staleWorld.stale m₁⟩,
      ⟨.createMeta (ascii "?") [] [], staleWorld.stale m₁, (staleWorld.stale m₁).stale m₂⟩] ∧
    runOps twoDraws staleWorld staleOps = (staleWorld.stale m₁).stale m₂ ∧
    m₁.molecularHash ≠ m₂.molecularHash ∧
    signingKey sampleSecret m₁ = some ⟨sampleSecret.bytes, ascii "USER", List.replicate 64 99, 1⟩ ∧
    signingKey sampleSecret m₂ = some ⟨sampleSecret.bytes, ascii "USER", List.replicate 64 99, 1⟩ := by
  obtain ⟨m₁, hrun₁, hkey₁, hhash₁⟩ := createMeta_stale (w := staleWorld) rfl rfl (show Utf8.valid (ascii "!") = true by decide)
  obtain ⟨m₂, hrun₂, hkey₂, hhash₂⟩ := createMeta_stale (w := staleWorld.stale m₁) rfl rfl
    (show Utf8.valid (ascii "?") = true by decide)
  have hfirst : applyOp twoDraws (.createMeta (ascii "!") [] []) staleWorld = staleWorld.stale m₁ := by
    rw [applyOp_createMeta, hrun₁]
  have hsecond : applyOp twoDraws (.createMeta (ascii "?") [] []) (staleWorld.stale m₁) = (staleWorld.stale m₁).stale m₂ := by
    rw [applyOp_createMeta, hrun₂]
  have hhashes : m₁.molecularHash ≠ m₂.molecularHash := by
    have hmark : 33 ∈ ascii "!" := by decide
    have hplain : 33 ∉ ascii "?" := by decide
    rw [hhash₁, hhash₂, if_pos hmark, if_neg hplain]
    intro heq
    have hdigests := Atom.base17_injective List.length_replicate List.length_replicate heq
    exact absurd (List.replicate_right_injective (by norm_num) hdigests) (by decide)
  refine ⟨m₁, m₂, ?_, ?_, hhashes, hkey₁, hkey₂⟩
  · rw [staleOps, calls, calls, calls, hfirst, hsecond]
  · rw [staleOps, runOps, List.foldl_cons, List.foldl_cons, List.foldl_nil, hfirst, hsecond]

theorem proposed_mem_events (op : Op) (w : World (List Reply)) (m : Molecule) :
    .proposed sampleSecret m (w.env.tail.headD ⟨0, []⟩) ∈ Call.events ⟨op, w, w.stale m⟩ := by
  have hlog : (w.stale m).log = w.log ++ ([.asked (.continuId (List.replicate 64 48)) (w.env.headD ⟨0, []⟩)] ++
      [.proposed sampleSecret m (w.env.tail.headD ⟨0, []⟩)]) := by
    rw [← List.append_assoc]
    rfl
  rw [Call.events, hlog, List.drop_left]
  exact List.mem_append_right _ List.mem_cons_self

/-- The draws of the run differ. -/
theorem draws_distinct (i j : Nat) (hi : i < 2) (hj : j < 2) (h : (twoDraws.draw i).bytes = (twoDraws.draw j).bytes) : i = j := by
  have hdiffer : (List.replicate 64 97 : ByteString) ≠ List.replicate 64 98 := by
    intro heq
    exact absurd (List.replicate_right_injective (by norm_num) heq) (by decide)
  obtain rfl | rfl : i = 0 ∨ i = 1 := by omega
  · obtain rfl | rfl : j = 0 ∨ j = 1 := by omega
    · rfl
    · exact absurd h hdiffer
  · obtain rfl | rfl : j = 0 ∨ j = 1 := by omega
    · exact absurd h.symm hdiffer
    · rfl

/-- In that run the reused position comes from a reply. -/
theorem signingKey_reused_stale : ∃ m₁ m₂,
    Call.supplied twoDraws ⟨.createMeta (ascii "!") [] [], staleWorld, staleWorld.stale m₁⟩ (List.replicate 64 99) ∨
      Call.supplied twoDraws ⟨.createMeta (ascii "?") [] [], staleWorld.stale m₁, (staleWorld.stale m₁).stale m₂⟩
        (List.replicate 64 99) := by
  obtain ⟨m₁, m₂, hcalls, hrun, hhashes, hkey₁, hkey₂⟩ := stale_run
  have hdrawn : (runOps twoDraws staleWorld staleOps).drawn = 2 := by
    rw [hrun]
    rfl
  refine ⟨m₁, m₂, signingKey_reused twoDraws staleWorld staleOps ?_ (by rw [hcalls]; exact List.mem_cons_self)
    (by rw [hcalls]; exact List.mem_cons_of_mem _ List.mem_cons_self) (proposed_mem_events _ _ m₁)
    (proposed_mem_events _ _ m₂) hhashes hkey₁ hkey₂⟩
  rw [hdrawn]
  exact fun i j _ hi _ hj h => draws_distinct i j hi hj h

/-- Nothing on the client keeps it from signing twice at one position. -/
theorem one_key_signs_twice :
    (∀ i j, i < (runOps twoDraws staleWorld staleOps).drawn → j < (runOps twoDraws staleWorld staleOps).drawn →
      (twoDraws.draw i).bytes = (twoDraws.draw j).bytes → i = j) ∧
    ¬ ∀ c₁ ∈ calls twoDraws staleWorld staleOps, ∀ c₂ ∈ calls twoDraws staleWorld staleOps,
      ∀ secret₁ secret₂ m₁ m₂ reply₁ reply₂ key, .proposed secret₁ m₁ reply₁ ∈ c₁.events →
        .proposed secret₂ m₂ reply₂ ∈ c₂.events → signingKey secret₁ m₁ = some key → signingKey secret₂ m₂ = some key →
          m₁.molecularHash = m₂.molecularHash := by
  obtain ⟨m₁, m₂, hcalls, hrun, hhashes, hkey₁, hkey₂⟩ := stale_run
  constructor
  · rw [hrun]
    exact fun i j hi hj => draws_distinct i j hi hj
  · rw [hcalls]
    intro h
    have hsame := h _ List.mem_cons_self _ (List.mem_cons_of_mem _ List.mem_cons_self) _ _ _ _ _ _ _
      (proposed_mem_events _ _ m₁) (proposed_mem_events _ _ m₂) hkey₁ hkey₂
    exact hhashes hsame

end Example

end KnishIO
