import KnishIO.Client.Authorization
import KnishIO.Molecule.RoundTrip

open ByteString

namespace KnishIO

variable {E : Type} (S : Setting E)

/-- The state after an exchange. -/
def World.exchanged (w : World E) (request : Request) (record : Reply → Event) : World E :=
  { w with
    env := (S.serve request w.env).2
    log := w.log ++ [record (S.serve request w.env).1] }

/-- The state after a query. -/
def World.asked (w : World E) (request : Request) : World E := w.exchanged S request (.asked request)

/-- The state after a molecule was sent. -/
def World.proposed (w : World E) (secret : Secret) (molecule : Molecule) : World E :=
  w.exchanged S (.proposeMolecule molecule) (.proposed secret molecule)

def Request.isQuery : Request → Bool
  | .proposeMolecule _ => false
  | _ => true

/-- From one state to another by drawing random values and asking queries only. -/
inductive Quiet (w : World E) : World E → Prop where
  | refl : Quiet w w
  | draw {t : World E} : Quiet w t → Quiet w { t with drawn := t.drawn + 1 }
  | ask {t : World E} (request : Request) : request.isQuery = true → Quiet w t → Quiet w (t.asked S request)

namespace Quiet

variable {S} {w t u : World E}

theorem trans (hwt : Quiet S w t) (htu : Quiet S t u) : Quiet S w u := by
  induction htu with
  | refl => exact hwt
  | draw _ ih => exact .draw ih
  | ask request hquery _ ih => exact .ask request hquery ih

theorem client (h : Quiet S w t) : t.client = w.client := by
  induction h with
  | refl => rfl
  | draw _ ih => exact ih
  | ask _ _ _ ih => exact ih

theorem drawn (h : Quiet S w t) : w.drawn ≤ t.drawn := by
  induction h with
  | refl => exact le_refl _
  | draw _ ih => exact ih.trans (Nat.le_succ _)
  | ask _ _ _ ih => exact ih

/-- The history grows by queries. -/
theorem log (h : Quiet S w t) :
    ∃ events, t.log = w.log ++ events ∧ ∀ e ∈ events, ∃ request reply, e = .asked request reply := by
  induction h with
  | refl => exact ⟨[], by simp, by simp⟩
  | draw _ ih => exact ih
  | @ask t request _ _ ih =>
    obtain ⟨events, hlog, hasked⟩ := ih
    refine ⟨events ++ [.asked request (S.serve request t.env).1], ?_, ?_⟩
    · rw [← List.append_assoc, ← hlog]
      rfl
    · intro e he
      obtain he | he := List.mem_append.mp he
      · exact hasked e he
      · obtain rfl := List.mem_singleton.mp he
        exact ⟨_, _, rfl⟩

end Quiet

instance : IsPreorder (World E) (Quiet S) where
  refl _ := .refl
  trans _ _ _ := Quiet.trans

section Primitives

variable {S} {α : Type} {w t : World E}

theorem permit_continuId (transport : Transport) (bundle : ByteString) :
    transport.permit (.continuId bundle) = .ok () := by
  simp [Transport.permit, Request.bypassesCipher]

theorem permit_kind {transport : Transport} {request : Request} {e : Exception} (h : transport.permit request = .error e) :
    e.kind = .encryptedTransport := by
  unfold Transport.permit at h
  split_ifs at h
  · cases h
    rfl
  · cases h
    rfl

theorem quiet_drawn {k : Nat} (hk : w.drawn ≤ k) : Quiet S w { w with drawn := k } := by
  induction k, hk using Nat.le_induction with
  | base => exact .refl
  | succ k _ ih => exact .draw ih

/-- An exchange is refused by the transport, which leaves the state, or takes place. -/
theorem exec_exchange (request : Request) (record : Reply → Event) (w : World E) :
    (exchange S request record).exec w =
      match w.client.transport.permit request with
      | .ok () => (.ok (S.serve request w.env).1, w.exchanged S request record)
      | .error e => (.error e, w) := by
  simp only [exchange, Act.exec_bind, Act.exec_get, Act.andThen_ok, Act.exec_ofExcept]
  cases w.client.transport.permit request with
  | ok _ => rfl
  | error e => rfl

theorem moves_query {request : Request} (hquery : request.isQuery = true) : Act.Moves (Quiet S) (query S request) := by
  intro w
  rw [query, exec_exchange]
  cases w.client.transport.permit request with
  | ok _ => exact .ask request hquery .refl
  | error e => exact .refl

theorem moves_randomHex : Act.Moves (Quiet S) (randomHex S) := fun _ => .draw .refl

theorem moves_require (c : Prop) [Decidable c] (e : Exception) : Act.Moves (Quiet S) (Act.require c e) := by
  unfold Act.require
  split
  · exact Act.Moves.pure _
  · exact Act.Moves.throw _

theorem moves_newWallet (secret : Secret) (token position : ByteString) (mlkemParameterSet otsVersion : Int) :
    Act.Moves (Quiet S) (newWallet S secret token position mlkemParameterSet otsVersion) := by
  unfold newWallet
  refine Act.Moves.bind ?_ fun _ => Act.Moves.ofExcept _
  split
  · exact moves_randomHex
  · exact Act.Moves.pure _

theorem moves_secretValue : Act.Moves (Quiet S) (secretValue : Run E Secret) := by
  refine Act.Moves.bind Act.Moves.get fun w => ?_
  cases w.client.secret with
  | none => exact Act.Moves.throw _
  | some secret => exact Act.Moves.pure _

theorem moves_getBundle : Act.Moves (Quiet S) (getBundle : Run E ByteString) := by
  refine Act.Moves.bind Act.Moves.get fun w => ?_
  cases w.client.bundle with
  | none => exact Act.Moves.throw _
  | some bundle => exact Act.Moves.pure _

theorem moves_ensureAuthenticated : Act.Moves (Quiet S) (ensureAuthenticated : Run E Unit) :=
  Act.Moves.bind Act.Moves.get fun _ => moves_require _ _

theorem moves_continuIdSourceWallet (bundle : ByteString) (mlKemParameterSet : Int) :
    Act.Moves (Quiet S) (continuIdSourceWallet S bundle mlKemParameterSet) := by
  refine Act.Moves.bind ?_ fun (position, address) => ?_
  · exact Act.Moves.tryCatch ((moves_query rfl).bind fun _ => Act.Moves.pure _) fun _ => Act.Moves.pure _
  refine Act.Moves.bind moves_secretValue fun secret => Act.Moves.bind Act.Moves.get fun world => ?_
  dsimp only
  split
  · exact moves_newWallet _ _ _ _ _
  · exact Act.Moves.bind (Act.Moves.ofExcept _) fun _ => moves_newWallet _ _ _ _ _

theorem moves_resolveTokenWallet (bundle token : ByteString) (buffer : Bool) :
    Act.Moves (Quiet S) (resolveTokenWallet S bundle token buffer) := by
  refine Act.Moves.tryCatch ((moves_query rfl).bind fun _ => Act.Moves.pure _) fun e => ?_
  split
  · exact Act.Moves.throw _
  · exact Act.Moves.pure _

theorem moves_ledgerWallet (secret : Secret) (token : ByteString) (mlKemParameterSet : Int) (info : TokenWalletInfo) :
    Act.Moves (Quiet S) (ledgerWallet S secret token mlKemParameterSet info) :=
  Act.Moves.bind Act.Moves.get fun _ => Act.Moves.bind (Act.Moves.ofExcept _) fun _ => moves_newWallet _ _ _ _ _

theorem moves_bufferSource (secret : Secret) (senderBundle token : ByteString) (mlKemParameterSet : Int)
    (given : Option Wallet) : Act.Moves (Quiet S) (bufferSource S secret senderBundle token mlKemParameterSet given) := by
  cases given with
  | some given => exact Act.Moves.pure _
  | none =>
    exact Act.Moves.bind (moves_resolveTokenWallet _ _ _) fun _ => Act.Moves.bind (moves_require _ _) fun _ =>
      Act.Moves.bind (moves_ledgerWallet _ _ _ _) fun _ => Act.Moves.pure _

theorem moves_creditedWallet (secret : Secret) (token : ByteString) (config : Config) (existing : TokenWalletInfo) :
    Act.Moves (Quiet S) (creditedWallet S secret token config existing) := by
  unfold creditedWallet
  split
  · exact Act.Moves.bind (moves_ledgerWallet _ _ _ _) fun _ => Act.Moves.pure _
  · exact moves_newWallet _ _ _ _ _

theorem moves_fusionBatchIds (source : Wallet) : Act.Moves (Quiet S) (fusionBatchIds S source) := by
  unfold fusionBatchIds
  split
  · exact Act.Moves.pure _
  · exact Act.Moves.bind moves_randomHex fun _ => Act.Moves.bind moves_randomHex fun _ => Act.Moves.pure _

theorem moves_recipientShadows (secret : Secret) (token : ByteString) (recipients : List TransferRecipient) :
    Act.Moves (Quiet S) (recipientShadows S secret token recipients) := by
  induction recipients with
  | nil => exact Act.Moves.pure _
  | cons r recipients ih =>
    exact Act.Moves.bind (moves_newWallet _ _ _ _ _) fun _ => Act.Moves.bind ih fun _ => Act.Moves.pure _

end Primitives

section Results

variable {S} {α : Type} {w t : World E}

theorem require_ok {c : Prop} [Decidable c] {e : Exception} {a : PUnit}
    (h : (Act.require c e : Run E PUnit).exec w = (.ok a, t)) : c ∧ t = w := by
  unfold Act.require at h
  split at h
  next hc =>
    obtain ⟨_, rfl⟩ := Prod.mk.inj h
    exact ⟨hc, rfl⟩
  next => cases h

theorem ensureAuthenticated_ok {a : Unit} (h : (ensureAuthenticated : Run E Unit).exec w = (.ok a, t)) :
    w.client.isAuthenticated = true ∧ t = w := require_ok h

theorem secretValue_ok {secret : Secret} (h : (secretValue : Run E Secret).exec w = (.ok secret, t)) :
    w.client.secret = some secret ∧ t = w := by
  simp only [secretValue, Act.exec_bind, Act.exec_get, Act.andThen_ok] at h
  cases hsecret : w.client.secret with
  | none => simp [hsecret] at h
  | some held =>
    simp only [hsecret, Act.exec_pure, Prod.mk.injEq, Except.ok.injEq] at h
    exact ⟨congrArg some h.1, h.2.symm⟩

theorem getBundle_ok {bundle : ByteString} (h : (getBundle : Run E ByteString).exec w = (.ok bundle, t)) :
    w.client.bundle = some bundle ∧ t = w := by
  simp only [getBundle, Act.exec_bind, Act.exec_get, Act.andThen_ok] at h
  cases hbundle : w.client.bundle with
  | none => simp [hbundle] at h
  | some held =>
    simp only [hbundle, Act.exec_pure, Prod.mk.injEq, Except.ok.injEq] at h
    exact ⟨congrArg some h.1, h.2.symm⟩

/-- A wallet stands at the given position, or at a drawn one where none is given. -/
theorem newWallet_ok {secret : Secret} {token position : ByteString} {mlkemParameterSet otsVersion : Int} {wallet : Wallet}
    (h : (newWallet S secret token position mlkemParameterSet otsVersion).exec w = (.ok wallet, t)) :
    (position = [] ∧ t = { w with drawn := w.drawn + 1 } ∧
      Wallet.new S.hash S.kem secret.bytes token (S.draw w.drawn).bytes mlkemParameterSet otsVersion = .ok wallet) ∨
    (position ≠ [] ∧ t = w ∧
      Wallet.new S.hash S.kem secret.bytes token position mlkemParameterSet otsVersion = .ok wallet) := by
  unfold newWallet at h
  split at h
  next hempty =>
    obtain ⟨hnew, rfl⟩ := Prod.mk.inj h
    exact .inl ⟨hempty, rfl, hnew⟩
  next hposition =>
    obtain ⟨hnew, rfl⟩ := Prod.mk.inj h
    exact .inr ⟨hposition, rfl, hnew⟩

end Results

section Outcomes

variable {S} {α β : Type} {w₀ w t : World E} {P Q : World E → Secret → Molecule → Prop}

/-- What a call that sends at most one molecule leaves: only queries, or after them a molecule that was
sent from a state in a given relation to its signer and itself. -/
inductive Outcome (S : Setting E) (w : World E) (P : World E → Secret → Molecule → Prop) : World E → Prop where
  | quiet {t : World E} : Quiet S w t → Outcome S w P t
  | sent {t : World E} {secret : Secret} {m : Molecule} :
      Quiet S w t → t.client.secret = some secret → P t secret m → Outcome S w P (t.proposed S secret m)

theorem Outcome.mono (h : Outcome S w P t) (hPQ : ∀ t secret m, Quiet S w t → P t secret m → Q t secret m) :
    Outcome S w Q t := by
  cases h with
  | quiet hquiet => exact .quiet hquiet
  | sent hquiet hsecret hP => exact .sent hquiet hsecret (hPQ _ _ _ hquiet hP)

/-- A part that only queries goes first. -/
theorem Outcome.bind {x : Run E α} {f : α → Run E β} (hx : Act.Moves (Quiet S) x) (hw : Quiet S w₀ w)
    (hf : ∀ a t, x.exec w = (.ok a, t) → Quiet S w t → Quiet S w₀ t → Outcome S w₀ P ((f a).exec t).2) :
    Outcome S w₀ P ((x >>= f).exec w).2 := by
  have hmoves := hx w
  rw [Act.exec_bind]
  rcases hexec : x.exec w with ⟨r, t⟩
  rw [hexec] at hmoves
  cases r with
  | error e => exact .quiet (hw.trans hmoves)
  | ok a => exact hf a t hexec hmoves (hw.trans hmoves)

/-- The steps of a call in the state it starts from. -/
theorem Outcome.get {f : World E → Run E β} (hf : Outcome S w₀ P ((f w).exec w).2) :
    Outcome S w₀ P ((get >>= f : Run E β).exec w).2 := hf

theorem Outcome.map {x : Run E α} {g : α → β} (hx : Outcome S w₀ P (x.exec w).2) :
    Outcome S w₀ P ((x >>= fun a => pure (g a)).exec w).2 := by
  rw [Act.exec_bind]
  rcases hexec : x.exec w with ⟨r, t⟩
  rw [hexec] at hx
  cases r with
  | error e => exact hx
  | ok a => exact hx

theorem moves_assemble (cellSlug : ByteString) (source remainder : Wallet) (b : Molecule.Builder) :
    Act.Moves (Quiet S) (assemble S cellSlug source remainder b) :=
  Act.Moves.bind Act.Moves.get fun _ => Act.Moves.bind (Act.Moves.ofExcept _) fun _ => Act.Moves.pure _

/-- The molecule of a builder on its two wallets, signed. -/
def SignedBy (H : Shake256) (cellSlug : ByteString) (source remainder : Wallet) (b : Molecule.Builder) (secret : Secret)
    (m : Molecule) : Prop :=
  ∃ clock atoms built position,
    (b.run clock).exec (Molecule.withWallets cellSlug (clock 0) source remainder) = (.ok atoms, built) ∧
      (Molecule.sign H secret.bytes).exec built = (.ok position, m)

theorem assemble_ok {cellSlug : ByteString} {source remainder : Wallet} {b : Molecule.Builder} {built : Molecule}
    (h : (assemble S cellSlug source remainder b).exec w = (.ok built, t)) :
    t = w ∧ ∃ atoms,
      (b.run (S.clock w.drawn)).exec (Molecule.withWallets cellSlug (S.clock w.drawn 0) source remainder) =
        (.ok atoms, built) := by
  simp only [assemble, Act.exec_bind, Act.exec_get, Act.andThen_ok, Act.exec_ofExcept] at h
  rcases hrun : (b.run (S.clock w.drawn)).run (Molecule.withWallets cellSlug (S.clock w.drawn 0) source remainder) with
    e | ⟨atoms, m⟩
  · simp [hrun] at h
  · simp only [hrun, Act.andThen_ok, Act.exec_pure, Prod.mk.injEq, Except.ok.injEq] at h
    obtain ⟨rfl, rfl⟩ := h
    exact ⟨rfl, atoms, Act.run_eq_ok.mp hrun⟩

/-- A molecule is sent only after it was signed with the secret of the client and passed the check. -/
theorem outcome_submitMolecule {molecule : Molecule} (hw : Quiet S w₀ w)
    (hP : ∀ secret position m, w.client.secret = some secret →
      (Molecule.sign S.hash secret.bytes).exec molecule = (.ok position, m) → Molecule.check S.hash m = .ok () →
        P w secret m) : Outcome S w₀ P ((submitMolecule S molecule).exec w).2 := by
  simp only [submitMolecule, Act.exec_bind, Act.exec_get, Act.andThen_ok]
  cases hsecret : w.client.secret with
  | none => exact .quiet hw
  | some secret =>
    simp only [Act.exec_bind, Act.exec_ofExcept]
    rcases hsign : (Molecule.sign S.hash secret.bytes).run molecule with e | ⟨position, m⟩
    · exact .quiet hw
    simp only [Act.andThen_ok, Act.exec_bind, Act.exec_ofExcept, ↓reduceIte]
    cases hcheck : Molecule.check S.hash m with
    | error e => exact .quiet hw
    | ok _ =>
      simp only [Except.mapError, Act.andThen_ok, Act.exec_bind, Act.exec_ofExcept]
      cases htext : m.toJson with
      | error e => exact .quiet hw
      | ok text =>
        simp only [Act.andThen_ok, Act.exec_bind, mutate, exec_exchange]
        cases w.client.transport.permit (.proposeMolecule m) with
        | error e => exact .quiet hw
        | ok _ => exact .sent hw hsecret (hP secret position m hsecret (Act.run_eq_ok.mp hsign) hcheck)

/-- The end of every operation: a molecule is built on its two wallets, signed, checked and sent. -/
theorem outcome_assemble {cellSlug : ByteString} {source remainder : Wallet} {b : Molecule.Builder} (hw : Quiet S w₀ w)
    (hP : ∀ secret m, w.client.secret = some secret → SignedBy S.hash cellSlug source remainder b secret m →
      Molecule.check S.hash m = .ok () → P w secret m) :
    Outcome S w₀ P ((assemble S cellSlug source remainder b >>= fun m => submitMolecule S m).exec w).2 := by
  refine Outcome.bind (moves_assemble _ _ _ _) hw fun built t hbuilt _ ht => ?_
  obtain ⟨rfl, atoms, hrun⟩ := assemble_ok hbuilt
  exact outcome_submitMolecule ht fun secret position m hsecret hsign hcheck =>
    hP secret m hsecret ⟨_, atoms, built, position, hrun, hsign⟩ hcheck

end Outcomes

end KnishIO
