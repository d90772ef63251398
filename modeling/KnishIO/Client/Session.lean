import KnishIO.Client.LoginRuns

open ByteString

namespace KnishIO

/-- A call that touches the session. -/
inductive SessionCall where
  | setSecret (secret : ByteString)
  | requestAuthToken (secret cellSlug : Option ByteString) (encrypt : Bool)
  | switchEncryption (encrypt : Bool)

def SessionCall.op : SessionCall → Op
  | .setSecret secret => .setSecret secret
  | .requestAuthToken secret cellSlug encrypt => .requestAuthToken secret cellSlug encrypt
  | .switchEncryption encrypt => .switchEncryption encrypt

/-- The field of the payload that a reply grants. -/
def Reply.grant (F : Json.FloatText) (field : String) (reply : Reply) : Option ByteString :=
  (reply.payload F).bind (·.stringAt field)

def Event.grants (F : Json.FloatText) (field : String) : Event → Bool
  | .proposed _ _ reply => (reply.grant F field).isSome
  | _ => false

def Event.identity : Event → Option Secret
  | .identified secret => some secret
  | _ => none

/-- The secret that was assigned last. -/
def heldSecret (log : List Event) : Option Secret := (log.filterMap Event.identity).getLast?

/-- An authorization molecule, what it was built from and the reply to it. -/
structure Authorization where
  secret : Secret
  cellSlug : ByteString
  encrypt : Bool
  source : Wallet
  molecule : Molecule
  reply : Reply

namespace Authorization

def event (a : Authorization) : Event := .proposed a.secret a.molecule a.reply

def Signed {E : Type} (S : Setting E) (a : Authorization) : Prop :=
  ∃ remainder, SignedBy S.hash a.cellSlug a.source remainder (.initAuthorization a.source a.encrypt) a.secret a.molecule

end Authorization

/-- The authorizations that a token and a cipher context come from. -/
structure Session where
  token : Option Authorization := none
  context : Option Authorization := none

/-- The session after another authorization. -/
def Session.authorize (F : Json.FloatText) (s : Session) (a : Authorization) : Session where
  token := if (a.reply.grant F "token").isSome then some a else s.token
  context := if (a.reply.grant F "key").isSome then some a else s.context

/-- The session that a client and its transport carry. -/
structure Client.Carries (F : Json.FloatText) (client : Client) (s : Session) : Prop where
  token : client.authToken = s.token.bind (·.reply.grant F "token")
  transport : client.transport.authToken = client.authToken
  wallet : client.transport.cipherWallet = s.context.map (·.source)
  key : client.transport.serverPubKey = s.context.bind (·.reply.grant F "key")

theorem Client.Carries.bindSession {F : Json.FloatText} {client : Client} {s : Session} (h : client.Carries F s)
    (a : Authorization) :
    ((a.reply.payload F).elim client (client.bindSession a.source a.encrypt)).Carries F (s.authorize F a) := by
  cases hpayload : a.reply.payload F with
  | none => simpa [Session.authorize, Reply.grant, hpayload] using h
  | some payload =>
    obtain ⟨htoken, htransport, hwallet, hkey⟩ := h
    cases hjwt : payload.stringAt "token" with
    | none =>
      cases hserver : payload.stringAt "key" with
      | none =>
        constructor <;>
          simp [Session.authorize, Reply.grant, hpayload, hjwt, hserver, Client.bindSession, Client.setEncryption, htoken,
            htransport, hwallet, hkey]
      | some key =>
        constructor <;>
          simp [Session.authorize, Reply.grant, hpayload, hjwt, hserver, Client.bindSession, Client.setEncryption,
            Client.setCipherContext, htoken, htransport]
    | some jwt =>
      cases hserver : payload.stringAt "key" with
      | none =>
        constructor <;>
          simp [Session.authorize, Reply.grant, hpayload, hjwt, hserver, Client.bindSession, Client.setEncryption,
            Client.setAuthToken, hwallet, hkey]
      | some key =>
        constructor <;>
          simp [Session.authorize, Reply.grant, hpayload, hjwt, hserver, Client.bindSession, Client.setEncryption,
            Client.setAuthToken, Client.setCipherContext]

section History

variable {E : Type} {S : Setting E} {field : String} {log events : List Event} {slot : Option Authorization}

/-- The last authorization of a history whose reply granted a field, signed with the secret that was held then. -/
inductive LastGrant (S : Setting E) (field : String) (log : List Event) : Option Authorization → Prop where
  | never (hnone : ∀ e ∈ log, e.grants S.floatText field = false) : LastGrant S field log none
  | latest {a : Authorization} {before after : List Event} (hlog : log = before ++ a.event :: after) (hsigned : a.Signed S)
      (hheld : heldSecret before = some a.secret) (hgranted : (a.reply.grant S.floatText field).isSome = true)
      (hafter : ∀ e ∈ after, e.grants S.floatText field = false) : LastGrant S field log (some a)

theorem LastGrant.append (h : LastGrant S field log slot) (hevents : ∀ e ∈ events, e.grants S.floatText field = false) :
    LastGrant S field (log ++ events) slot := by
  cases h with
  | never hnone => exact .never fun e he => (List.mem_append.mp he).elim (hnone e) (hevents e)
  | @latest a before after hlog hsigned hheld hgranted hafter =>
    have hlater : ∀ e ∈ after ++ events, e.grants S.floatText field = false :=
      fun e he => (List.mem_append.mp he).elim (hafter e) (hevents e)
    refine .latest ?_ hsigned hheld hgranted hlater
    rw [hlog, List.append_assoc, List.cons_append]

theorem LastGrant.authorize (h : LastGrant S field log slot) {a : Authorization} (hsigned : a.Signed S)
    (hheld : heldSecret log = some a.secret) :
    LastGrant S field (log ++ [a.event]) (if (a.reply.grant S.floatText field).isSome then some a else slot) := by
  cases hgranted : (a.reply.grant S.floatText field).isSome with
  | true => exact .latest rfl hsigned hheld hgranted (by simp)
  | false => exact h.append (by simpa [Event.grants, Authorization.event] using hgranted)

@[simp] theorem heldSecret_asked (log : List Event) (hasked : ∀ e ∈ events, ∃ request reply, e = .asked request reply) :
    heldSecret (log ++ events) = heldSecret log := by
  have hnone : events.filterMap Event.identity = [] := by
    rw [List.filterMap_eq_nil_iff]
    intro e he
    obtain ⟨request, reply, rfl⟩ := hasked e he
    rfl
  rw [heldSecret, List.filterMap_append, hnone, List.append_nil, heldSecret]

@[simp] theorem heldSecret_identified (log : List Event) (secret : Secret) :
    heldSecret (log ++ [.identified secret]) = some secret := by
  simp [heldSecret, Event.identity]

@[simp] theorem heldSecret_proposed (log : List Event) (a : Authorization) :
    heldSecret (log ++ [a.event]) = heldSecret log := by
  simp [heldSecret, Event.identity, Authorization.event]

end History

section Grounds

variable {E : Type} {S : Setting E} {w t u : World E} {s : Session} {secret : Secret} {cellSlug : ByteString} {encrypt : Bool}
  {source : Wallet}

/-- A client whose session is read off its history. -/
structure Grounds (S : Setting E) (w : World E) (s : Session) : Prop where
  carries : w.client.Carries S.floatText s
  secret : w.client.secret = heldSecret w.log
  bundle : w.Equipped S → w.client.bundle = w.client.secret.map fun secret => Wallet.generateBundleHash S.hash secret.bytes
  token : LastGrant S "token" w.log s.token
  context : LastGrant S "key" w.log s.context
  same : (∀ e ∈ w.log, e.grants S.floatText "token" = e.grants S.floatText "key") → s.token = s.context

theorem Grounds.fresh (config : Config) (env : E) :
    Grounds S { client := { config := config }, env := env } ({} : Session) where
  carries := ⟨rfl, rfl, rfl, rfl⟩
  secret := rfl
  bundle _ := rfl
  token := .never (by simp)
  context := .never (by simp)
  same _ := rfl

/-- Random values and queries leave the session as it is. -/
theorem Grounds.quiet (h : Grounds S w s) (hquiet : Quiet S w t) : Grounds S t s := by
  obtain ⟨events, hlog, hasked⟩ := hquiet.log
  have hclient := hquiet.client
  have hnone {field : String} : ∀ e ∈ events, e.grants S.floatText field = false := by
    intro e he
    obtain ⟨request, reply, rfl⟩ := hasked e he
    rfl
  constructor
  · exact hclient ▸ h.carries
  · rw [hclient, hlog, heldSecret_asked _ hasked, h.secret]
  · intro hequipped
    rw [hclient]
    exact h.bundle ⟨hequipped.kem, hclient ▸ hequipped.parameterSet⟩
  · exact hlog ▸ h.token.append hnone
  · exact hlog ▸ h.context.append hnone
  · intro hall
    refine h.same fun e he => hall e ?_
    rw [hlog]
    exact List.mem_append_left _ he

/-- The reply to an authorization molecule that was signed with the secret of the client is the new ground. -/
theorem Grounds.authorized (h : Grounds S u s) (hsecret : u.client.secret = some secret) {m : Molecule}
    (hsigned : (⟨secret, cellSlug, encrypt, source, m, u.verdict S m⟩ : Authorization).Signed S) :
    Grounds S (u.authorized S secret source encrypt m)
      (s.authorize S.floatText ⟨secret, cellSlug, encrypt, source, m, u.verdict S m⟩) := by
  have hidentity : (u.authorized S secret source encrypt m).client.secret = u.client.secret ∧
      (u.authorized S secret source encrypt m).client.bundle = u.client.bundle ∧
      (u.authorized S secret source encrypt m).client.config = u.client.config := by
    simp only [World.authorized]
    cases (u.verdict S m).payload S.floatText with
    | none => exact ⟨rfl, rfl, rfl⟩
    | some payload =>
      simp only [Option.elim_some, Client.bindSession, Client.setEncryption]
      cases payload.stringAt "token" <;> cases payload.stringAt "key" <;> exact ⟨rfl, rfl, rfl⟩
  obtain ⟨hsame, hbundle, hconfig⟩ := hidentity
  have hheld : heldSecret u.log = some secret := h.secret ▸ hsecret
  constructor
  · exact h.carries.bindSession ⟨secret, cellSlug, encrypt, source, m, u.verdict S m⟩
  · rw [hsame, h.secret]
    exact (heldSecret_proposed u.log ⟨secret, cellSlug, encrypt, source, m, u.verdict S m⟩).symm
  · intro hequipped
    rw [hsame, hbundle]
    exact h.bundle ⟨hequipped.kem, hconfig ▸ hequipped.parameterSet⟩
  · exact h.token.authorize hsigned hheld
  · exact h.context.authorize hsigned hheld
  · intro hall
    have hbefore := h.same fun e he => hall e (List.mem_append_left _ he)
    have hnow : ((u.verdict S m).grant S.floatText "token").isSome = ((u.verdict S m).grant S.floatText "key").isSome :=
      hall (.proposed secret m (u.verdict S m)) (List.mem_append_right _ List.mem_cons_self)
    simp only [Session.authorize, hnow, hbefore]

theorem Grounds.identified (h : Grounds S w s) {bytes : ByteString} {r : Throws Unit} (hset : SetSecretOutcome S bytes w r t) :
    Grounds S t s := by
  have hnone (held : Secret) {field : String} :
      ∀ e ∈ [Event.identified held], e.grants S.floatText field = false := by simp [Event.grants]
  have hassigned (held : Secret) {v : World E} (hlog : v.log = w.log ++ [.identified held])
      (hcarries : v.client.Carries S.floatText s) (hheld : v.client.secret = some held)
      (hbundle : v.Equipped S → v.client.bundle = some (Wallet.generateBundleHash S.hash held.bytes)) : Grounds S v s := by
    refine ⟨hcarries, ?_, ?_, ?_, ?_, ?_⟩
    · rw [hheld, hlog, heldSecret_identified]
    · intro hequipped
      rw [hbundle hequipped, hheld]
      rfl
    · exact hlog ▸ h.token.append (hnone held)
    · exact hlog ▸ h.context.append (hnone held)
    · intro hall
      refine h.same fun e he => hall e ?_
      rw [hlog]
      exact List.mem_append_left _ he
  cases hset with
  | invalid _ => exact h
  | @failed held e t hsecret hwallet hquiet =>
    refine (hassigned held (v := w.identified held) rfl ⟨h.carries.token, h.carries.transport, h.carries.wallet, h.carries.key⟩
      rfl fun hequipped => ?_).quiet hquiet
    -- a client whose wallets can be made does not fail here
    obtain ⟨wallet, hmade⟩ := Wallet.new_exists (H := S.hash) hequipped.kem (ascii "USER") held.nonempty
      (S.draw w.drawn).ne_nil hequipped.parameterSet w.client.config.otsVersion_checked
    rw [show w.client.config.mlKemParameterSet = (w.identified held).client.config.mlKemParameterSet from rfl, hmade] at hwallet
    cases hwallet
  | @set held wallet hsecret hwallet =>
    exact hassigned held rfl ⟨h.carries.token, h.carries.transport, h.carries.wallet, h.carries.key⟩ rfl fun _ => rfl

/-- A state of the client with the secret `secret` whose session is read off its history. -/
def Grounded (S : Setting E) (secret : Secret) (w : World E) : Prop := w.client.secret = some secret ∧ ∃ s, Grounds S w s

theorem Grounded.quiet (h : Grounded S secret w) (hquiet : Quiet S w t) : Grounded S secret t := by
  obtain ⟨hsecret, s, hs⟩ := h
  exact ⟨hquiet.client ▸ hsecret, s, hs.quiet hquiet⟩

theorem Grounded.authorizes {r : Throws Response} (h : Grounded S secret w)
    (hsent : Authorizes S secret cellSlug encrypt source w r t) : Grounded S secret t := by
  obtain ⟨u, m, hsigned, -, rfl⟩ := hsent
  obtain ⟨hsecret, s, hs⟩ : Grounded S secret u := hsigned.drawn ▸ h.quiet (.draw .refl)
  obtain ⟨remainder, -, hmolecule⟩ := hsigned.signed
  have hauthorization : (⟨secret, cellSlug, encrypt, source, m, u.verdict S m⟩ : Authorization).Signed S :=
    ⟨remainder, hmolecule⟩
  have hgrounds := hs.authorized hsecret hauthorization
  refine ⟨?_, _, hgrounds⟩
  rw [hgrounds.secret]
  exact (heldSecret_proposed u.log ⟨secret, cellSlug, encrypt, source, m, u.verdict S m⟩).trans (hs.secret ▸ hsecret)

theorem Grounded.fresh {r : Throws Response} (h : Grounded S secret w) (hfresh : FreshOutcome S secret cellSlug encrypt w r t) :
    Grounded S secret t := by
  cases hfresh with
  | failed hquiet => exact h.quiet hquiet
  | sent hsource hsent => exact (h.quiet (.draw .refl)).authorizes hsent

theorem Grounded.login {pointer : Option Response.ContinuID} {r : Throws Response} (h : Grounded S secret w)
    (hlogin : LoginOutcome S secret cellSlug encrypt w pointer r t) : Grounded S secret t := by
  cases hlogin with
  | failed hquiet => exact h.quiet hquiet
  | fresh hpointer houtcome => exact h.fresh houtcome
  | settled hpointer hsource hsent hsettles => exact h.authorizes hsent
  | fallback hpointer hsource hsent hrejected houtcome => exact (h.authorizes hsent).fresh houtcome

theorem Grounds.requestAuthToken {given slug : Option ByteString} {r : Throws Response} (h : Grounds S w s)
    (hauth : AuthOutcome S given slug encrypt w r t) : ∃ s, Grounds S t s := by
  have hidentified {v : World E} {secret : Secret} (hv : Identified S given w v secret) : Grounded S secret v := by
    refine ⟨hv.secret_eq, ?_⟩
    obtain ⟨-, rfl⟩ | ⟨bytes, wallet, -, hbytes, hwallet, rfl⟩ := hv.step
    · exact ⟨s, h⟩
    · exact ⟨s, h.identified (.set hbytes hwallet)⟩
  cases hauth with
  | unidentified hstep =>
    obtain ⟨-, -, rfl⟩ | ⟨bytes, -, hset⟩ := hstep
    · exact ⟨s, h⟩
    · exact ⟨s, h.identified hset⟩
  | unbundled hu hbundle => exact (hidentified hu).2
  | unwritable hu hbundle hfailure => exact ((hidentified hu).quiet (.ask _ rfl .refl)).2
  | queryFailed hu hbundle hfailure => exact ((hidentified hu).quiet (.ask _ rfl .refl)).2
  | login hu hbundle hanswered houtcome => exact (((hidentified hu).quiet (.ask _ rfl .refl)).login houtcome).2

theorem Grounds.switchEncryption (h : Grounds S w s) (encrypt : Bool) :
    Grounds S (applyOp S (.switchEncryption encrypt) w) s where
  carries := ⟨h.carries.token, h.carries.transport, h.carries.wallet, h.carries.key⟩
  secret := h.secret
  bundle hequipped := h.bundle ⟨hequipped.kem, hequipped.parameterSet⟩
  token := h.token
  context := h.context
  same := h.same

/-- One call keeps the session grounded. -/
theorem Grounds.call (h : Grounds S w s) (call : SessionCall) : ∃ s, Grounds S (applyOp S call.op w) s := by
  cases call with
  | setSecret secret => exact ⟨s, h.identified (setSecret_outcome S w secret)⟩
  | requestAuthToken given slug encrypt => exact h.requestAuthToken (requestAuthToken_outcome S w given slug encrypt)
  | switchEncryption encrypt => exact ⟨s, h.switchEncryption encrypt⟩

theorem Grounds.run (h : Grounds S w s) (calls : List SessionCall) :
    ∃ s, Grounds S (runOps S w (calls.map SessionCall.op)) s := by
  induction calls generalizing w s with
  | nil => exact ⟨s, h⟩
  | cons call calls ih =>
    obtain ⟨_, hcall⟩ := h.call call
    exact ih hcall

/-- In every run of a client, its token and its transport's are that of the last authorization whose reply granted a
token, signed with the secret held at the time; the cipher wallet and the server key are those of the last one whose
reply granted a key; where replies grant both or neither, the two are the same. -/
theorem session_of_authorizations (S : Setting E) (config : Config) (env : E) (calls : List SessionCall) :
    ∃ s, Grounds S (runOps S { client := { config := config }, env := env } (calls.map SessionCall.op)) s :=
  (Grounds.fresh config env).run calls

end Grounds

section Example

/-- The token was granted to a molecule of the client's present identity, and an encrypted transport uses the context
that came with it. -/
def SessionCurrent {E : Type} (S : Setting E) (w : World E) : Prop :=
  w.client.isAuthenticated = true → ∃ a : Authorization, a.event ∈ w.log ∧ a.Signed S ∧
    a.reply.grant S.floatText "token" = w.client.authToken ∧ w.client.transport.authToken = w.client.authToken ∧
    w.client.bundle = some (Wallet.generateBundleHash S.hash a.secret.bytes) ∧
    (w.client.transport.cipherEnabled = true → w.client.transport.cipherWallet = some a.source ∧
      w.client.transport.serverPubKey = a.reply.grant S.floatText "key")

/-- With working wallets `setSecret` returns. -/
theorem applyOp_setSecret {E : Type} {S : Setting E} {w : World E} (hw : w.Equipped S) (secret : Secret) :
    applyOp S (.setSecret secret.bytes) w = w.secretSet S secret := by
  have hbytes := secret.ofBytes_bytes
  have houtcome := setSecret_outcome S w secret.bytes
  change ((setSecret S secret.bytes).exec w).2 = _
  rcases hexec : (setSecret S secret.bytes).exec w with ⟨r, t⟩
  rw [hexec] at houtcome
  cases houtcome with
  | invalid hinvalid => rw [hbytes] at hinvalid; cases hinvalid
  | @failed held e t hheld hwallet hquiet =>
    obtain ⟨wallet, hmade⟩ := Wallet.new_exists (H := S.hash) hw.kem (ascii "USER") held.nonempty (S.draw w.drawn).ne_nil
      hw.parameterSet w.client.config.otsVersion_checked
    rw [hmade] at hwallet
    cases hwallet
  | @set held wallet hheld hwallet =>
    obtain rfl := Except.ok.inj (hbytes.symm.trans hheld)
    rfl

def firstSecret : Secret := ⟨ascii "a", by decide, by decide⟩

def secondSecret : Secret := ⟨ascii "b", by decide, by decide⟩

/-- A hash that tells the second secret from everything else, and a node that answers from a list. -/
def telling : Setting (List Reply) where
  hash := ⟨fun s size => List.replicate size (if s = secondSecret.bytes then 1 else 0), by simp⟩
  kem := oneKey
  floatText := integersOnly
  draw := scripted.draw
  clock := fun _ _ => 0
  serve := scripted.serve

def noPointer : Reply := ⟨200, ascii "\x7b\"data\":\x7b\"ContinuId\":null\x7d\x7d"⟩

def tokenReply : Reply :=
  ⟨200, ascii "\x7b\"data\":\x7b\"ProposeMolecule\":\x7b\"payload\":\"\x7b\\\"token\\\":\\\"jwt\\\"\x7d\"\x7d\x7d\x7d"⟩

def freshWorld : World (List Reply) := { client := { config := {} }, env := [noPointer, tokenReply] }

theorem equipped_telling {w : World (List Reply)} (h : w.client.config.mlKemParameterSet = 1024) : w.Equipped telling :=
  ⟨fun _ _ => ⟨[], rfl⟩, .inr h⟩

theorem continuId_noPointer : (noPointer.continuId integersOnly).continuIdFailure = .ok none ∧
    Response.userPointer (noPointer.continuId integersOnly).data = none := by decide +kernel

theorem grant_tokenReply : tokenReply.grant integersOnly "token" = some (ascii "jwt") := by decide +kernel

/-- A granted token is bound. -/
theorem authToken_authorized {E : Type} {S : Setting E} {u : World E} {secret : Secret} {source : Wallet} {encrypt : Bool}
    {m : Molecule} {jwt : ByteString} (h : (u.verdict S m).grant S.floatText "token" = some jwt) :
    (u.authorized S secret source encrypt m).client.authToken = some jwt := by
  obtain ⟨payload, hpayload, hjwt⟩ := Option.bind_eq_some_iff.mp h
  simp only [World.authorized, hpayload, Option.elim_some, Client.bindSession, hjwt, Client.setEncryption]
  cases payload.stringAt "key" <;> rfl

theorem bundles_differ : Wallet.generateBundleHash telling.hash secondSecret.bytes ≠
    Wallet.generateBundleHash telling.hash firstSecret.bytes := by decide

/-- The states of the run: with the first secret, after the pointer query, after the login. -/
def firstWorld : World (List Reply) := freshWorld.secretSet telling firstSecret

def askedWorld : World (List Reply) :=
  { firstWorld.asked telling (.continuId (Wallet.generateBundleHash telling.hash firstSecret.bytes)) with
    drawn := firstWorld.drawn + 2 }

theorem verdict_askedWorld (m : Molecule) : askedWorld.verdict telling m = tokenReply := rfl

theorem log_askedWorld : askedWorld.log = [.identified firstSecret,
    .asked (.continuId (Wallet.generateBundleHash telling.hash firstSecret.bytes)) noPointer] := rfl

theorem applyOp_requestAuthToken {E : Type} (S : Setting E) (w : World E) (secret cellSlug : Option ByteString) (encrypt : Bool) :
    applyOp S (.requestAuthToken secret cellSlug encrypt) w = ((requestAuthToken S secret cellSlug encrypt).exec w).2 := rfl

theorem runOps_nil {E : Type} (S : Setting E) (w : World E) : runOps S w [] = w := rfl

theorem runOps_cons {E : Type} (S : Setting E) (w : World E) (op : Op) (ops : List Op) :
    runOps S w (op :: ops) = runOps S (applyOp S op w) ops := rfl

theorem log_secretSet {E : Type} (S : Setting E) (w : World E) (secret : Secret) :
    (w.secretSet S secret).log = w.log ++ [.identified secret] := rfl

theorem log_authorized {E : Type} (S : Setting E) (u : World E) (secret : Secret) (source : Wallet) (encrypt : Bool)
    (m : Molecule) : (u.authorized S secret source encrypt m).log = u.log ++ [.proposed secret m (u.verdict S m)] := rfl

/-- A client that is given another secret keeps the token of the first. -/
theorem session_outlives_identity : ¬ SessionCurrent telling
    (runOps telling freshWorld ([SessionCall.setSecret firstSecret.bytes, .requestAuthToken none none false,
      .setSecret secondSecret.bytes].map SessionCall.op)) := by
  have hfirst : applyOp telling (SessionCall.setSecret firstSecret.bytes).op freshWorld = firstWorld :=
    applyOp_setSecret (equipped_telling rfl) firstSecret
  obtain ⟨source, u, m, hu, -, -, hexec⟩ := requestAuthToken_sends none false noPointer (S := telling) (w := firstWorld)
    (equipped_telling rfl) rfl rfl rfl continuId_noPointer.1 continuId_noPointer.2 rfl
  obtain rfl : u = askedWorld := hu
  have hlogin : applyOp telling (SessionCall.requestAuthToken none none false).op firstWorld =
      askedWorld.authorized telling firstSecret source false m := by
    rw [SessionCall.op, applyOp_requestAuthToken, hexec]
  have hconfig : (askedWorld.authorized telling firstSecret source false m).client.config.mlKemParameterSet = 1024 := by
    rw [config_authorized]
    rfl
  have hsecond : applyOp telling (SessionCall.setSecret secondSecret.bytes).op
      (askedWorld.authorized telling firstSecret source false m) = _ := applyOp_setSecret (equipped_telling hconfig) secondSecret
  have htoken : (askedWorld.authorized telling firstSecret source false m).client.authToken = some (ascii "jwt") :=
    authToken_authorized (by rw [verdict_askedWorld]; exact grant_tokenReply)
  have hrun : runOps telling freshWorld ([SessionCall.setSecret firstSecret.bytes, .requestAuthToken none none false,
      .setSecret secondSecret.bytes].map SessionCall.op) =
        (askedWorld.authorized telling firstSecret source false m).secretSet telling secondSecret := by
    rw [List.map_cons, List.map_cons, List.map_cons, List.map_nil, runOps_cons, runOps_cons, runOps_cons, runOps_nil, hfirst,
      hlogin, hsecond]
  rw [hrun]
  intro hcurrent
  obtain ⟨a, ha, -, -, -, hbundle, -⟩ := hcurrent (by
    rw [Client.isAuthenticated, World.secretSet, World.identified]
    simp only [htoken]
    decide)
  have hlog : ((askedWorld.authorized telling firstSecret source false m).secretSet telling secondSecret).log =
      [.identified firstSecret, .asked (.continuId (Wallet.generateBundleHash telling.hash firstSecret.bytes)) noPointer,
        .proposed firstSecret m tokenReply, .identified secondSecret] := by
    rw [log_secretSet, log_authorized, verdict_askedWorld, log_askedWorld, List.append_assoc]
    rfl
  have hsecret : a.secret = firstSecret := by
    rw [hlog] at ha
    simp only [List.mem_cons, List.not_mem_nil, or_false] at ha
    obtain ha | ha | ha | ha := ha
    · cases ha
    · cases ha
    · exact (Event.proposed.inj ha).1
    · cases ha
  rw [hsecret] at hbundle
  exact bundles_differ (Option.some.inj hbundle)

end Example

end KnishIO
