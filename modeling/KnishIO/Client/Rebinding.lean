import KnishIO.Client.OneTimeKeys
import KnishIO.Client.Debits
import KnishIO.Wallet.Detection

open ByteString

namespace KnishIO

namespace Molecule

section Front

variable {clock : Nat → Int64} {m built : Molecule} {atoms : List Atom}

theorem credits_unsigned {token : Wallet → ByteString} {recipientMeta : Wallet → Throws Metas} {index : Nat} {total : Int}
    {recipients : List Wallet} {amounts : List ByteString} {r : List Atom × Int}
    (h : credits clock token recipientMeta index total recipients amounts = .ok r) : ∀ a ∈ r.1, a.otsFragment = [] := by
  induction recipients generalizing index total amounts r with
  | nil =>
    obtain rfl := Except.ok.inj h
    simp
  | cons w ws ih =>
    cases amounts with
    | nil => cases h
    | cons amount amounts =>
      obtain ⟨added, -, h⟩ := Throws.bind_ok h
      obtain ⟨next, -, h⟩ := Throws.bind_ok h
      obtain ⟨metas, -, h⟩ := Throws.bind_ok h
      obtain ⟨rest, hrest, h⟩ := Throws.bind_ok h
      obtain rfl := Except.ok.inj h
      exact List.forall_mem_cons.mpr ⟨rfl, ih hrest⟩

/-- The atoms are still without a signature, and the first one is that of the signer. -/
structure Opens (source : Wallet) (atoms : List Atom) : Prop where
  front : ∃ front rest, atoms = front :: rest ∧ front.place = source.place ∧ front.token = source.token
  unsigned : ∀ a ∈ atoms, a.otsFragment = []

theorem Opens.cons {source : Wallet} {front : Atom} {rest : List Atom} (hplace : front.place = source.place)
    (htoken : front.token = source.token) (hfront : front.otsFragment = []) (hrest : ∀ a ∈ rest, a.otsFragment = []) :
    Opens source (front :: rest) :=
  ⟨⟨front, rest, rfl, hplace, htoken⟩, List.forall_mem_cons.mpr ⟨hfront, hrest⟩⟩

/-- Every builder opens the molecule with the atom of its signer. -/
theorem Builder.opens (b : Builder) (h : (b.run clock).exec m = (.ok atoms, built)) {remainderWallet : Wallet}
    (hm : m.remainderWallet = some remainderWallet) (hfresh : m.atoms = []) : Opens b.source built.atoms := by
  have hrun := Act.run_eq_ok.mpr h
  have hlast {atoms : List Atom} (hatoms : ∀ a ∈ atoms, a.otsFragment = []) {last : Atom} (hlast : last.otsFragment = []) :
      ∀ a ∈ atoms ++ [last], a.otsFragment = [] :=
    List.forall_mem_append.mpr ⟨hatoms, List.forall_mem_singleton.mpr hlast⟩
  cases b with
  | initValue source recipient remainder amount =>
    obtain ⟨_, _, _, _, _, -, -, -, -, -, rfl⟩ := initValue_ok hrun
    rw [appended, hfresh]
    exact .cons rfl rfl rfl (by simp [creditAtom, Atom.new])
  | initValues source recipients amounts remainder =>
    obtain ⟨_, r, _, _, -, hr, -, -, rfl⟩ := initValues_ok hrun
    rw [appended, hfresh]
    exact .cons rfl rfl rfl (hlast (credits_unsigned hr) rfl)
  | initDepositBuffer source buffer remainder amount tradeRates =>
    obtain ⟨_, _, _, -, -, -, rfl⟩ := initDepositBuffer_ok hrun
    rw [appended, hfresh]
    exact .cons rfl rfl rfl (by simp [creditAtom, Atom.new])
  | initWithdrawBuffer source recipients amounts remainder =>
    obtain ⟨_, r, _, -, hr, -, rfl⟩ := initWithdrawBuffer_ok hrun
    rw [appended, hfresh]
    exact .cons rfl rfl rfl (hlast (credits_unsigned hr) rfl)
  | initTokenFusion drawn source recipient remainder ids newId =>
    obtain ⟨_, _, _, _, _, -, rfl⟩ := initTokenFusion_ok hrun
    rw [appended, hfresh]
    exact .cons rfl rfl rfl (by simp [Atom.new])
  | initTokenCreation | initTokenReplenish | initMeta | initWalletCreation | initShadowWalletClaim | initAuthorization =>
    obtain ⟨front, hplace, htoken, -, hfragment, -, rfl⟩ := continuId_run rfl hm hfresh h
    exact .cons hplace htoken hfragment (by simp [continuIdAtom, Atom.new])

end Front

end Molecule

section Signing

variable {H : Shake256} {K : MlKem} {secret : Secret} {cellSlug : ByteString} {source remainder : Wallet}
  {b : Molecule.Builder} {m : Molecule}

/-- The wallet's address is the one that its token, position and version derive. -/
def Wallet.Derived (H : Shake256) (secret : ByteString) (w : Wallet) : Prop :=
  Wallet.addressAt H secret w.token w.position w.otsVersion = .ok w.address

theorem Wallet.Made.derived {bytes token position : ByteString} {v : Int} {w : Wallet} (h : w.Made H bytes token position v) :
    w.Derived H bytes := by
  rw [Wallet.Derived, h.token_eq, h.position_eq, h.otsVersion_eq]
  exact h.address_eq

theorem SignedBy.sourceWallet (h : SignedBy H cellSlug source remainder b secret m) : m.sourceWallet = some source := by
  obtain ⟨clock, atoms, built, position, hrun, hsign⟩ := h
  obtain ⟨front, rest, hatoms, -, -⟩ := (b.opens hrun rfl rfl).front
  obtain ⟨_, hbuilt, -, -⟩ := b.writes_run clock (some remainder) _ atoms built rfl hrun
  obtain ⟨hash, key, signature, -, -, -, rfl⟩ := Molecule.sign_ok_inv hatoms hsign
  simp only [Molecule.signed]
  rw [hbuilt]
  rfl

/-- What such a wallet signs is signed by the address of its first atom. -/
theorem SignedBy.verifyOts (h : SignedBy H cellSlug source remainder b secret m) (hb : b.source = source)
    (hderived : source.Derived H secret.bytes) : Molecule.verifyOts H m = .ok () := by
  obtain ⟨clock, atoms, built, position, hrun, hsign⟩ := h
  have hopens := b.opens hrun rfl rfl
  obtain ⟨front, rest, hatoms, hplace, htoken⟩ := hopens.front
  obtain ⟨_, hbuilt, -, -⟩ := b.writes_run clock (some remainder) _ atoms built rfl hrun
  obtain ⟨hash, key, signature, hhash, hkey, hsig, rfl⟩ := Molecule.sign_ok_inv hatoms hsign
  have hversion : built.signingOtsVersion = source.otsVersion := by
    rw [hbuilt]
    rfl
  have haddress : Wallet.generateWalletAddress H key = front.walletAddress := by
    rw [hb] at hplace htoken
    rw [hversion, htoken, show front.position = source.position from congrArg Prod.fst hplace] at hkey
    rw [Wallet.Derived, Wallet.addressAt, hkey] at hderived
    exact (Except.ok.inj hderived).trans (congrArg Prod.snd hplace).symm
  exact Molecule.verifyOts_signed hatoms hopens.unsigned hhash hkey haddress hsig false

end Signing

section Binding

variable {H : Shake256} {K : MlKem} {secret : Secret} {client : Client} {token position address : ByteString} {v : Int}

theorem Client.bindOwnWalletOtsVersion_detects (H : Shake256) (token : ByteString) (hsecret : client.secret = some secret)
    (hposition : position ≠ []) (haddress : address ≠ []) :
    ((∃ e, client.bindOwnWalletOtsVersion H token position address = .error e) ↔
      ∀ v, ¬ Wallet.Derives H secret.bytes token position address v) ∧
    ∀ v, client.bindOwnWalletOtsVersion H token position address = .ok v ↔
      Wallet.Derives H secret.bytes token position address v ∧
        (Wallet.Derives H secret.bytes token position address client.config.otsVersion → v = client.config.otsVersion) := by
  obtain ⟨found, hfound, hdetects⟩ := Wallet.detectOtsVersion_detects H secret.bytes token
    client.config.otsVersion_checked hposition haddress
  have hfilled : ¬ (position = [] ∨ address = []) := by simp [hposition, haddress]
  rw [← hdetects.none_iff]
  simp only [← hdetects.some_iff, Client.bindOwnWalletOtsVersion, if_neg hfilled, hsecret, hfound]
  cases found with
  | none => simp
  | some version => simp

/-- What the ledger knows of a wallet. -/
structure LedgerRow where
  token : ByteString
  position : ByteString
  address : ByteString

/-- The wallet is the one of a row, whose address may differ in letter case. -/
structure Wallet.StandsAt (row : LedgerRow) (w : Wallet) : Prop where
  token_eq : w.token = row.token
  position_eq : w.position = row.position
  address_eq : w.address.map Wallet.toLower = row.address.map Wallet.toLower

theorem Wallet.Made.standsAt {bytes : ByteString} {w : Wallet} (h : w.Made H bytes token position v)
    (hderives : Wallet.Derives H bytes token position address v) : w.StandsAt ⟨token, position, address⟩ := by
  obtain ⟨derived, hderived, hlower⟩ := hderives
  obtain rfl : w.address = derived := Except.ok.inj (h.address_eq.symm.trans hderived)
  exact ⟨h.token_eq, h.position_eq, hlower⟩

end Binding

section Sources

variable {E : Type} {S : Setting E} {w t : World E} {secret : Secret} {mlKemParameterSet : Int} {source : Wallet}

/-- A wallet that signs with its own address and stands at a row, where the row has an address. -/
structure Rebound (S : Setting E) (secret : Secret) (row : Option LedgerRow) (source : Wallet) : Prop where
  derived : source.Derived S.hash secret.bytes
  standsAt : ∀ r, row = some r → r.address ≠ [] → source.StandsAt r

/-- The pointer of a USER operation. -/
def Reply.pointerRow (F : Json.FloatText) (reply : Reply) : Option LedgerRow :=
  if (reply.pointer F).1 = [] then none else some ⟨ascii "USER", (reply.pointer F).1, (reply.pointer F).2⟩

/-- The spendable wallet of a token. -/
def Reply.tokenRow (F : Json.FloatText) (token : ByteString) (reply : Reply) : Option LedgerRow :=
  if (reply.tokenWallet F).found then some ⟨token, (reply.tokenWallet F).position, (reply.tokenWallet F).address⟩ else none

/-- The pointer of a login. -/
def Reply.loginRow (F : Json.FloatText) (reply : Reply) : Option LedgerRow :=
  (Response.userPointer (reply.continuId F).data).map fun p => ⟨ascii "USER", p.position, p.walletAddress⟩

theorem UserSource.rebound {reply : Reply} (h : UserSource S w secret mlKemParameterSet reply source)
    (hsecret : w.client.secret = some secret) : Rebound S secret (reply.pointerRow S.floatText) source := by
  cases h with
  | fresh hpointer hnew =>
    refine ⟨(Wallet.made_new hnew).derived, fun r hr => ?_⟩
    rw [Reply.pointerRow, if_pos hpointer] at hr
    cases hr
  | pointer version hpointer hbind hnew =>
    refine ⟨(Wallet.made_new hnew).derived, fun r hr haddress => ?_⟩
    rw [Reply.pointerRow, if_neg hpointer] at hr
    obtain rfl := Option.some.inj hr
    have hderives := ((Client.bindOwnWalletOtsVersion_detects _ _ hsecret hpointer haddress).2 version).mp hbind
    exact (Wallet.made_new hnew).standsAt hderives.1

theorem Reply.tokenWallet_address (F : Json.FloatText) (reply : Reply)
    (hfound : (reply.tokenWallet F).found = true) : (reply.tokenWallet F).address ≠ [] := by
  unfold Reply.tokenWallet at hfound ⊢
  cases hrow : reply.row F "Balance" with
  | none => simp [hrow] at hfound
  | some bal =>
    simp only [hrow, Bool.and_eq_true, decide_eq_true_eq] at hfound
    exact hfound.2

theorem RowSource.rebound {reply : Reply} {token : ByteString}
    (h : RowSource S w secret token mlKemParameterSet (reply.tokenWallet S.floatText) source)
    (hsecret : w.client.secret = some secret) : Rebound S secret (reply.tokenRow S.floatText token) source := by
  obtain ⟨version, ledger, hbind, hnew, hsource⟩ := h.ledger
  have hmade := Wallet.made_new hnew
  have hderives := ((Client.bindOwnWalletOtsVersion_detects _ _ hsecret (Reply.tokenWallet_position _ _ h.found)
    (Reply.tokenWallet_address _ _ h.found)).2 version).mp hbind
  have hstands := hmade.standsAt hderives.1
  rw [hsource]
  refine ⟨hmade.derived, fun r hr _ => ?_⟩
  rw [Reply.tokenRow, if_pos h.found] at hr
  obtain rfl := Option.some.inj hr
  exact ⟨hstands.token_eq, hstands.position_eq, hstands.address_eq⟩

theorem PointerSource.rebound {reply : Reply} {p : Response.ContinuID} (h : PointerSource S w secret p source)
    (hp : Response.userPointer (reply.continuId S.floatText).data = some p) :
    Rebound S secret (reply.loginRow S.floatText) source := by
  obtain ⟨version, hversion, hnew⟩ := h.ledger
  refine ⟨(Wallet.made_new hnew).derived, fun r hr haddress => ?_⟩
  rw [Reply.loginRow, hp] at hr
  obtain rfl := Option.some.inj hr
  obtain ⟨found, hfound, hdetects⟩ := Wallet.detectOtsVersion_detects S.hash secret.bytes (ascii "USER")
    w.client.config.otsVersion_checked h.position haddress
  rw [pointerOtsVersion, if_neg haddress, hfound] at hversion
  exact (Wallet.made_new hnew).standsAt ((hdetects.some_iff version).mp (Except.ok.inj hversion)).1

end Sources

section Calls

variable {E : Type} {S : Setting E} {w t u : World E} {secret : Secret} {m : Molecule}

/-- The first question of a call to its node, with the reply. -/
def lookup (events : List Event) : Option (Request × Reply) :=
  events.findSome? fun
    | .asked request reply => some (request, reply)
    | _ => none

/-- The row that an answered question gives to an operation. -/
def Op.reads (F : Json.FloatText) : Op → Request × Reply → Option LedgerRow
  | .requestAuthToken _ _ _, (.continuId _, reply) => reply.loginRow F
  | _, (.continuId _, reply) => reply.pointerRow F
  | _, (.balance _ token _, reply) => reply.tokenRow F token
  | _, (.proposeMolecule _, _) => none

/-- The row of the ledger that a call was told of for its signer. -/
def Call.row (S : Setting E) (c : Call E) : Option LedgerRow := (lookup c.events).bind (c.op.reads S.floatText)

/-- What an operation sends is signed by the wallet of its row; a login may also sign with a fresh AUTH wallet,
and a withdrawal with the wallet that it is handed. -/
structure SignsAtRow (S : Setting E) (op : Op) (row : Option LedgerRow) (m : Molecule) : Prop where
  verified : Molecule.verifyOts S.hash m = .ok ()
  source : ∃ source, m.sourceWallet = some source ∧
    ((∀ r, row = some r → r.address ≠ [] → source.StandsAt r) ∨ op.givenWallet = some source ∨
      (∃ secret cellSlug encrypt, op = .requestAuthToken secret cellSlug encrypt) ∧ source.token = ascii "AUTH")

theorem lookup_asked {request : Request} (h : Quiet S (w.asked S request) u) (secret : Secret) (m : Molecule) :
    lookup ((u.proposed S secret m).log.drop w.log.length) = some (request, (S.serve request w.env).1) := by
  obtain ⟨later, hlater, -⟩ := h.log
  have hlog : (u.proposed S secret m).log = w.log ++ (.asked request (S.serve request w.env).1 ::
      (later ++ [.proposed secret m (S.serve (.proposeMolecule m) u.env).1])) := by
    change u.log ++ [_] = _
    rw [hlater]
    change (w.log ++ [_]) ++ later ++ [_] = _
    simp
  rw [hlog, List.drop_left]
  rfl

/-- The molecule of a USER operation is signed at the pointer that the operation was told. -/
theorem Outcome.user_signsAtRow {op : Op} (h : Outcome S w (IsUserSigned S w) t) (hsends : Sends w t m)
    (hop : ∀ bundle reply, op.reads S.floatText (.continuId bundle, reply) = reply.pointerRow S.floatText) :
    SignsAtRow S op ((lookup (t.log.drop w.log.length)).bind (op.reads S.floatText)) m := by
  obtain ⟨u, secret, -, ⟨bundle, cellSlug, mlKemParameterSet, source, remainder, b, hsigned⟩, rfl⟩ := h.sends hsends
  have hrebound := hsigned.source_of.rebound hsigned.secret_eq
  refine ⟨hsigned.signed.verifyOts hsigned.source_eq hrebound.derived, source, hsigned.signed.sourceWallet, .inl ?_⟩
  rw [lookup_asked hsigned.asked, Option.bind_some, hop]
  exact hrebound.standsAt

/-- The molecule of a value operation is signed at the row that the operation was told, or by the wallet of the
caller. -/
theorem Outcome.value_signsAtRow {op : Op} {given : Option Wallet} (h : Outcome S w (IsValueSigned S given w) t)
    (hsends : Sends w t m) (hgiven : op.givenWallet = given)
    (hop : ∀ bundle token buffer reply,
      op.reads S.floatText (.balance bundle token buffer, reply) = reply.tokenRow S.floatText token) :
    SignsAtRow S op ((lookup (t.log.drop w.log.length)).bind (op.reads S.floatText)) m := by
  obtain ⟨u, secret, -, ⟨cellSlug, source, remainder, b, hsigned⟩, rfl⟩ := h.sends hsends
  obtain hcaller | ⟨bundle, token, buffer, mlKemParameterSet, -, hasked, hrow⟩ := hsigned.asked
  · exact ⟨(Molecule.check_ok_iff.mp hsigned.checked).2.2.2.1, source, hsigned.signed.sourceWallet,
      .inr (.inl (hgiven.trans hcaller))⟩
  · have hrebound := hrow.rebound hsigned.secret_eq
    refine ⟨hsigned.signed.verifyOts hsigned.source_eq hrebound.derived, source, hsigned.signed.sourceWallet, .inl ?_⟩
    rw [lookup_asked hasked, Option.bind_some, hop]
    exact hrebound.standsAt

end Calls

section Logins

variable {E : Type} {S : Setting E} {w t u : World E} {secret : Secret} {cellSlug : ByteString} {encrypt : Bool}
  {P : Molecule → Prop} {r : Throws Response}

/-- The history grows by events, and what is sent in them is of a kind. -/
def Posts (P : Molecule → Prop) (w t : World E) : Prop :=
  ∃ events, t.log = w.log ++ events ∧ ∀ secret m reply, .proposed secret m reply ∈ events → P m

theorem Posts.trans (h : Posts P w u) (h' : Posts P u t) : Posts P w t := by
  obtain ⟨first, hfirst, hall⟩ := h
  obtain ⟨second, hsecond, hall'⟩ := h'
  refine ⟨first ++ second, by rw [hsecond, hfirst, List.append_assoc], fun secret m reply hmem => ?_⟩
  obtain hmem | hmem := List.mem_append.mp hmem
  · exact hall secret m reply hmem
  · exact hall' secret m reply hmem

theorem Quiet.posts (h : Quiet S w t) : Posts P w t := by
  obtain ⟨events, hlog, hasked⟩ := h.log
  refine ⟨events, hlog, fun secret m reply hmem => ?_⟩
  obtain ⟨_, _, heq⟩ := hasked _ hmem
  cases heq

/-- An authorization molecule carries its source and is signed by it. -/
theorem Authorizes.posts {source : Wallet} (h : Authorizes S secret cellSlug encrypt source w r t)
    (hderived : source.Derived S.hash secret.bytes)
    (hP : ∀ m : Molecule, m.sourceWallet = some source → Molecule.verifyOts S.hash m = .ok () → P m) : Posts P w t := by
  obtain ⟨u, m, hsigned, -, rfl⟩ := h
  obtain ⟨remainder, -, hby⟩ := hsigned.signed
  obtain rfl := hsigned.drawn
  refine ⟨[.proposed secret m (World.verdict S { w with drawn := w.drawn + 1 } m)], rfl, fun secret' m' reply hmem => ?_⟩
  obtain ⟨-, rfl, -⟩ := Event.proposed.inj (List.mem_singleton.mp hmem)
  exact hP _ hby.sourceWallet (hby.verifyOts rfl hderived)

theorem FreshOutcome.posts (h : FreshOutcome S secret cellSlug encrypt w r t)
    (hP : ∀ (m : Molecule) source, m.sourceWallet = some source → Molecule.verifyOts S.hash m = .ok () →
      source.token = ascii "AUTH" → P m) : Posts P w t := by
  cases h with
  | failed hquiet => exact hquiet.posts
  | @sent source r t hsource hsent =>
    have hmade := Wallet.made_new hsource
    exact hsent.posts hmade.derived fun m hm hverify => hP m source hm hverify hmade.token_eq

/-- What a login sends once its pointer query was answered. -/
theorem LoginOutcome.posts {reply : Reply}
    (h : LoginOutcome S secret cellSlug encrypt w (Response.userPointer (reply.continuId S.floatText).data) r t)
    (given slug : Option ByteString) :
    Posts (SignsAtRow S (.requestAuthToken given slug encrypt) (reply.loginRow S.floatText)) w t := by
  have hfresh {u v : World E} {r : Throws Response} (h : FreshOutcome S secret cellSlug encrypt u r v) :
      Posts (SignsAtRow S (.requestAuthToken given slug encrypt) (reply.loginRow S.floatText)) u v :=
    h.posts fun m source hm hverify htoken => ⟨hverify, source, hm, .inr (.inr ⟨⟨_, _, _, rfl⟩, htoken⟩)⟩
  have hpointer {u v : World E} {p : Response.ContinuID} {source : Wallet} {r : Throws Response}
      (hp : Response.userPointer (reply.continuId S.floatText).data = some p) (hsource : PointerSource S u secret p source)
      (hsent : Authorizes S secret cellSlug encrypt source u r v) :
      Posts (SignsAtRow S (.requestAuthToken given slug encrypt) (reply.loginRow S.floatText)) u v := by
    have hrebound := hsource.rebound hp
    exact hsent.posts hrebound.derived fun m hm hverify => ⟨hverify, source, hm, .inl hrebound.standsAt⟩
  cases h with
  | failed hquiet => exact hquiet.posts
  | fresh _ houtcome => exact hfresh houtcome
  | settled hp hsource hsent _ => exact hpointer hp hsource hsent
  | fallback hp hsource hsent _ houtcome => exact (hpointer hp hsource hsent).trans (hfresh houtcome)

/-- The history of a login call: the secret, where one was given, the pointer query, and what follows. -/
theorem Identified.history {given : Option ByteString} {bundle : ByteString} {later : List Event}
    (hu : Identified S given w u secret) (hlater : t.log = (u.asked S (.continuId bundle)).log ++ later) :
    ∃ first : List Event, (first = [] ∨ first = [.identified secret]) ∧
      t.log.drop w.log.length = first ++ .asked (.continuId bundle) (S.serve (.continuId bundle) u.env).1 :: later ∧
      lookup (t.log.drop w.log.length) = some (.continuId bundle, (S.serve (.continuId bundle) u.env).1) := by
  obtain ⟨first, hfirst, hnone⟩ : ∃ first : List Event, u.log = w.log ++ first ∧ (first = [] ∨ first = [.identified secret]) := by
    obtain ⟨_, rfl⟩ | ⟨_, _, _, _, _, rfl⟩ := hu.step
    · exact ⟨[], (List.append_nil _).symm, .inl rfl⟩
    · exact ⟨[.identified secret], rfl, .inr rfl⟩
  have hlog : t.log = w.log ++ (first ++ .asked (.continuId bundle) (S.serve (.continuId bundle) u.env).1 :: later) := by
    rw [hlater]
    change (u.log ++ [_]) ++ later = _
    rw [hfirst]
    simp
  rw [hlog, List.drop_left]
  refine ⟨first, hnone, rfl, ?_⟩
  obtain rfl | rfl := hnone
  · rfl
  · rfl

/-- Every molecule of a login call is signed at the row that its pointer query told, or from a fresh AUTH wallet. -/
theorem AuthOutcome.signsAtRow {given slug : Option ByteString} {m : Molecule} (h : AuthOutcome S given slug encrypt w r t)
    (hsends : Sends w t m) :
    SignsAtRow S (.requestAuthToken given slug encrypt)
      ((lookup (t.log.drop w.log.length)).bind (Op.reads S.floatText (.requestAuthToken given slug encrypt))) m := by
  -- a state that is reached without sending anything is not the one after this call
  have hsilent {v : World E} (h : ∃ events, (∀ named, Disciplined S named w v events) ∧
      ∀ secret m reply, .proposed secret m reply ∉ events) : ¬ Sends w v m := by
    obtain ⟨events, hevents, hnone⟩ := h
    rw [sends_iff (hevents fun _ => True).log]
    rintro ⟨secret, reply, hmem⟩
    exact hnone _ _ _ hmem
  have hasked {v : World E} {secret : Secret} (hv : Identified S given w v secret) (bundle : ByteString) :
      ¬ Sends w (v.asked S (.continuId bundle)) m := by
    obtain ⟨events, hevents, hnone⟩ := hv.disciplined
    have hlog : (v.asked S (.continuId bundle)).log = w.log ++ (events ++ [.asked (.continuId bundle)
        (S.serve (.continuId bundle) v.env).1]) := by
      rw [← List.append_assoc, ← (hevents fun _ => True).log]
      rfl
    rw [sends_iff hlog]
    rintro ⟨secret, reply, hmem⟩
    obtain hmem | hmem := List.mem_append.mp hmem
    · exact hnone _ _ _ hmem
    · cases List.mem_singleton.mp hmem
  cases h with
  | unidentified hstep =>
    obtain ⟨_, _, rfl⟩ | ⟨bytes, _, houtcome⟩ := hstep
    · exact absurd hsends (Quiet.not_sends (S := S) .refl)
    · exact absurd hsends (hsilent houtcome.disciplined)
  | unbundled hu _ => exact absurd hsends (hsilent hu.disciplined)
  | unwritable hu _ _ => exact absurd hsends (hasked hu _)
  | queryFailed hu _ _ => exact absurd hsends (hasked hu _)
  | @login u secret bundle _ _ hu _ _ houtcome =>
    obtain ⟨later, hlater, hall⟩ := houtcome.posts given slug
    obtain ⟨first, hnone, hdrop, hlookup⟩ := hu.history hlater
    rw [Sends, hdrop] at hsends
    obtain ⟨signer, reply, hmem⟩ := hsends
    have hsent : .proposed signer m reply ∈ later := by
      obtain rfl | rfl := hnone <;> simpa using hmem
    rw [hlookup]
    exact hall signer m reply hsent

end Logins

section Runs

variable {E : Type} {S : Setting E} {w : World E}

/-- One call of any kind. -/
theorem Op.signsAtRow (S : Setting E) (op : Op) (w : World E) {m : Molecule} (hsends : Sends w (applyOp S op w) m) :
    SignsAtRow S op ((lookup ((applyOp S op w).log.drop w.log.length)).bind (op.reads S.floatText)) m := by
  cases op with
  | setSecret secret =>
    obtain ⟨events, hevents, hnone⟩ := (setSecret_outcome S w secret).disciplined
    obtain ⟨signer, reply, hmem⟩ := (sends_iff (hevents fun _ => True).log).mp hsends
    exact absurd hmem (hnone _ _ _)
  | switchEncryption encrypt =>
    obtain ⟨signer, reply, hmem⟩ := (sends_iff (List.append_nil _).symm).mp hsends
    cases hmem
  | requestAuthToken secret cellSlug encrypt => exact (requestAuthToken_outcome S w secret cellSlug encrypt).signsAtRow hsends
  | createToken token amount tokenMeta units =>
    exact (outcome_createToken token amount tokenMeta units).user_signsAtRow hsends fun _ _ => rfl
  | createWallet token => exact (outcome_createWallet token).user_signsAtRow hsends fun _ _ => rfl
  | createMeta metaType metaId metas => exact (outcome_createMeta metaType metaId metas).user_signsAtRow hsends fun _ _ => rfl
  | claimShadowWallet token batchId => exact (outcome_claimShadowWallet token batchId).user_signsAtRow hsends fun _ _ => rfl
  | replenishToken token amount units =>
    exact (outcome_replenishToken token amount units).user_signsAtRow hsends fun _ _ => rfl
  | transferToken bundleHash token amount batchId units =>
    exact (outcome_transferToken bundleHash token amount batchId units).value_signsAtRow hsends rfl fun _ _ _ _ => rfl
  | transferTokens token recipients =>
    exact (outcome_transferTokens token recipients).value_signsAtRow hsends rfl fun _ _ _ _ => rfl
  | burnToken token amount units =>
    exact (outcome_burnToken token amount units).value_signsAtRow hsends rfl fun _ _ _ _ => rfl
  | depositBufferToken token amount tradeRates =>
    exact (outcome_depositBufferToken token amount tradeRates).value_signsAtRow hsends rfl fun _ _ _ _ => rfl
  | withdrawBufferToken token amount sourceWallet =>
    exact (outcome_withdrawBufferToken token amount sourceWallet).value_signsAtRow hsends rfl fun _ _ _ _ => rfl
  | fuseToken bundleHash tokenSlug newTokenUnitId fusedTokenUnitIds =>
    exact (outcome_fuseToken bundleHash tokenSlug newTokenUnitId fusedTokenUnitIds).value_signsAtRow hsends rfl
      fun _ _ _ _ => rfl

theorem after_of_mem_calls {ops : List Op} {c : Call E} (hc : c ∈ calls S w ops) : c.after = applyOp S c.op c.before := by
  induction ops generalizing w with
  | nil => cases hc
  | cons op ops ih =>
    obtain rfl | hc := List.mem_cons.mp hc
    · rfl
    · exact ih hc

/-- Detection, binding and the wallet constructor agree on the version of a ledger row: what is detected derives the
row's address, binding throws exactly when neither version does, the wallet at the bound version stands at the row and
signs validly, and so does every molecule that a call of a run sends. -/
theorem ledger_rebound (S : Setting E) (w : World E) (ops : List Op) (token : ByteString) {position address : ByteString}
    (hposition : position ≠ []) (haddress : address ≠ []) :
    (∀ (secret : ByteString) (preferred : Int), preferred = 1 ∨ preferred = 2 →
      ∃ found, Wallet.detectOtsVersion S.hash secret token position address preferred = .ok found ∧
        Wallet.Detects S.hash secret token position address preferred found) ∧
    (∀ (client : Client) (secret : Secret), client.secret = some secret →
      ((∃ e, client.bindOwnWalletOtsVersion S.hash token position address = .error e) ↔
        ∀ v, ¬ Wallet.Derives S.hash secret.bytes token position address v) ∧
      ∀ version mlKemParameterSet ledger,
        client.bindOwnWalletOtsVersion S.hash token position address = .ok version →
        Wallet.new S.hash S.kem secret.bytes token position mlKemParameterSet version = .ok ledger →
        ledger.StandsAt ⟨token, position, address⟩ ∧
          ∀ balance batchId tokenUnits cellSlug remainder (b : Molecule.Builder) m,
            b.source = { ledger with balance, batchId, tokenUnits } →
            SignedBy S.hash cellSlug b.source remainder b secret m → Molecule.verifyOts S.hash m = .ok ()) ∧
    ∀ c ∈ calls S w ops, ∀ m, Sends c.before c.after m → SignsAtRow S c.op (c.row S) m := by
  refine ⟨fun secret preferred hpreferred => Wallet.detectOtsVersion_detects S.hash secret token hpreferred hposition haddress,
    fun client secret hsecret => ?_, fun c hc m hsends => ?_⟩
  · obtain ⟨hthrows, hbinds⟩ := Client.bindOwnWalletOtsVersion_detects S.hash token hsecret hposition haddress
    refine ⟨hthrows, fun version mlKemParameterSet ledger hbind hnew => ?_⟩
    have hmade := Wallet.made_new hnew
    refine ⟨hmade.standsAt ((hbinds version).mp hbind).1, fun balance batchId tokenUnits cellSlug remainder b m hb hsigned => ?_⟩
    have hderived : b.source.Derived S.hash secret.bytes := by
      rw [hb]
      exact hmade.derived
    exact hsigned.verifyOts rfl hderived
  · rw [after_of_mem_calls hc] at hsends
    rw [Call.row, Call.events, after_of_mem_calls hc]
    exact c.op.signsAtRow S c.before hsends

theorem mem_calls_singleton (S : Setting E) (w : World E) (op : Op) : ⟨op, w, applyOp S op w⟩ ∈ calls S w [op] :=
  List.mem_cons_self

theorem applyOp_sampleTransfer (S : Setting E) (w : World E) (k : Int) :
    applyOp S (.transferToken (ascii "0d") (ascii "T") (.finite k) [] []) w =
      (((ValueOperation.sampleTransfer k).run S).exec w).2 := rfl

/-- A transfer from a row at position 0a, whose wallet every version derives. -/
theorem ledger_rebound_transfer :
    (∃ found, Wallet.detectOtsVersion scripted.hash sampleSecret.bytes (ascii "T") (ascii "0a") (List.replicate 64 48) 2 =
        .ok found ∧
      Wallet.Detects scripted.hash sampleSecret.bytes (ascii "T") (ascii "0a") (List.replicate 64 48) 2 found) ∧
    (∀ ledger, Wallet.new scripted.hash scripted.kem sampleSecret.bytes (ascii "T") (ascii "0a") 1024 1 = .ok ledger →
      ledger.StandsAt ⟨ascii "T", ascii "0a", List.replicate 64 48⟩) ∧
    ∃ op m, ∃ c ∈ calls scripted ValueOperation.sevenTokens [op],
      Sends c.before c.after m ∧ SignsAtRow scripted c.op (c.row scripted) m := by
  have hposition : ascii "0a" ≠ [] := by decide
  have haddress : (List.replicate 64 48 : ByteString) ≠ [] := by simp
  have hrebound (op : Op) := ledger_rebound scripted ValueOperation.sevenTokens [op] (ascii "T") hposition haddress
  have hsigns {op : Op} {m : Molecule} (hsends : Sends ValueOperation.sevenTokens
      (applyOp scripted op ValueOperation.sevenTokens) m) :
      ∃ c ∈ calls scripted ValueOperation.sevenTokens [op],
        Sends c.before c.after m ∧ SignsAtRow scripted c.op (c.row scripted) m := by
    have hmem := mem_calls_singleton scripted ValueOperation.sevenTokens op
    exact ⟨_, hmem, hsends, (hrebound op).2.2 _ hmem m hsends⟩
  obtain ⟨hdetect, hbind, -⟩ := hrebound (.createWallet [])
  refine ⟨hdetect sampleSecret.bytes 2 (.inr rfl), fun ledger hnew => ?_, ?_⟩
  · exact ((hbind sampleClient sampleSecret rfl).2 1 1024 ledger (bindOwnWalletOtsVersion_sample _) hnew).1
  · obtain ⟨-, m, hsends, -⟩ := ValueOperation.sampleTransfer_sends (.inl rfl)
    rw [← applyOp_sampleTransfer] at hsends
    exact ⟨_, m, hsigns hsends⟩

end Runs

end KnishIO
