import KnishIO.Http.FailClosed
import KnishIO.Library.Json.Sound
import KnishIO.Library.Lockstep
import KnishIO.Wallet.Messages

open ByteString

namespace KnishIO

namespace GraphQLClient

section Peer

variable (S : CipherSetting)

/-- How the peer reads a CipherHash request: its wallet decrypts the variable `Hash`, and the plaintext is the
request as a JSON string. -/
def openRequest (peer : Wallet) (data : ByteString) : Throws ByteString := do
  let request ← parseJson S.floatText data
  let hash ← Throws.ofOption .jsonType ((request.find? (ascii "variables")).bind (·.stringAt "Hash"))
  parseJson S.floatText (← peer.decryptMyMessageML S hash) >>= getString

def cipherReply (hash : ByteString) : Json :=
  Json.object [(ascii "data", Json.object [(ascii "CipherHash", Json.object [(ascii "hash", .str hash)])])]

/-- What the peer makes of a reply: its text, encrypted as it is to one public key. -/
def sealReply (parameterSet : Int) (publicKey coins : ByteString) (call : Nat) (body : ByteString) : Throws ByteString := do
  let (ciphertext, sharedSecret) ← Throws.ofOption (.runtimeError (ascii "ML-KEM encapsulation failed"))
    (S.kem.encapsulate parameterSet publicKey coins)
  let encrypted ← Wallet.encryptWithSharedSecret S call body sharedSecret
  let hash ← dumpJson (Wallet.addressed S (toBase64 publicKey) (toBase64 ciphertext) (toBase64 encrypted))
  dumpJson (cipherReply hash)

end Peer

section Texts

variable {S : CipherSetting}

theorem valid_member {F : Json.FloatText} (key : String) (hkey : Utf8.valid (ascii key) = true) {value : Json}
    (hvalue : value.Valid F) :
    (Json.object [(ascii key, value)]).Valid F :=
  Json.valid_object fun m hm => by
    obtain rfl := List.mem_singleton.mp hm
    exact ⟨hkey, hvalue⟩

theorem find?_member (key : String) (value : Json) : (Json.object [(ascii key, value)]).find? (ascii key) = some value :=
  Json.find?_object_of_mem (by simp) (by simp)

/-- A document of the client: it is written, and its text is UTF-8 and is read back. -/
theorem dumpJson_valid {j : Json} (hj : j.Valid S.floatText) :
    dumpJson j = .ok j.text ∧ Utf8.valid j.text = true ∧ parseJson S.floatText j.text = .ok j := by
  refine ⟨?_, Json.valid_text j hj, ?_⟩
  · rw [dumpJson, Json.dump_valid S.floatText j hj]
  · rw [parseJson, Json.parse_text S.floatText j hj]

theorem utf8_of_dumpJson {j : Json} {text : ByteString} (h : dumpJson j = .ok text) : Utf8.valid text = true := by
  obtain ⟨hutf8, rfl⟩ := dumpJson_ok h
  exact Json.utf8_text j hutf8

/-- The document around an envelope. -/
def wrapper (envelope : ByteString) : Json :=
  Json.object (Request.wireMembers { query := cipherHashQuery, vars := some (Json.object [(ascii "Hash", .str envelope)]) })

theorem valid_wrapper {envelope : ByteString} (henvelope : Utf8.valid envelope = true) :
    (wrapper envelope).Valid S.floatText := by
  refine Json.valid_object fun m hm => ?_
  simp only [Request.wireMembers, Option.toList_some, Option.toList_none, List.map_cons, List.map_nil, List.append_nil,
    List.singleton_append, List.mem_cons, List.not_mem_nil, or_false] at hm
  obtain rfl | rfl := hm
  · exact ⟨by decide, show Utf8.valid cipherHashQuery = true by decide⟩
  · exact ⟨show Utf8.valid (ascii "variables") = true by decide, valid_member "Hash" (by decide) henvelope⟩

theorem hash_wrapper (envelope : ByteString) :
    ((wrapper envelope).find? (ascii "variables")).bind (·.stringAt "Hash") = some envelope := by
  have hvars : (wrapper envelope).find? (ascii "variables") = some (Json.object [(ascii "Hash", .str envelope)]) :=
    Json.find?_object_of_mem (show [ascii "query", ascii "variables"].Nodup by decide) (by simp [Request.wireMembers])
  rw [hvars, Option.bind_some, Json.stringAt, find?_member]
  rfl

theorem valid_cipherReply {hash : ByteString} (hhash : Utf8.valid hash = true) : (cipherReply hash).Valid S.floatText :=
  valid_member "data" (by decide) (valid_member "CipherHash" (by decide) (valid_member "hash" (by decide) hhash))

theorem cipherHash_cipherReply (hash : ByteString) : cipherHash (cipherReply hash) = some hash := by
  rw [cipherHash, cipherReply, find?_member, Option.bind_some, find?_member, Option.bind_some, Json.stringAt, find?_member]
  rfl

end Texts

section Reading

variable {S : CipherSetting} {sender receiver : Wallet}

/-- The peer reads out of a wrapped encryption the text that was encrypted to its key. -/
theorem openRequest_wrapped (hkem : S.kem.Correct) (hC : S.crypto.CorrectAead) (hreceiver : receiver.Keyed S)
    (hsender : IsParameterSet sender.mlkemParameterSet) {publicKey text envelope data : ByteString} {call : Nat}
    (hderive : Wallet.deriveMlKemKeypair S.hash S.kem.toMlKem receiver.key sender.mlkemParameterSet = .ok publicKey)
    (henvelope : sender.encryptStringML S call text (toBase64 publicKey) = .ok envelope) (hdata : wrapped envelope = .ok data) :
    openRequest S receiver data = .ok text := by
  obtain ⟨entries, hentries, hmap⟩ := Throws.bind_ok henvelope
  obtain ⟨-, ciphertext, -, json, encrypted, -, -, hjson, -, rfl⟩ := Wallet.encryptMessageML_parts hentries
  have hopened : receiver.decryptMyMessageML S envelope = .ok json := by
    rw [Wallet.decryptMyMessageML_addressed hkem hreceiver hderive hmap,
      Wallet.mlkemDecryptToString_encrypt hkem hC hreceiver hsender hderive hentries, hjson]
  have hutf8 : Utf8.valid envelope = true := utf8_of_dumpJson hmap
  obtain ⟨hwritten, -, hread⟩ := dumpJson_valid (S := S) (valid_wrapper hutf8)
  obtain rfl : (wrapper envelope).text = data := Except.ok.inj (hwritten.symm.trans hdata)
  obtain ⟨htext, rfl⟩ := dumpJson_ok hjson
  rw [openRequest, Throws.bind_of_ok hread, hash_wrapper, Throws.ofOption, Throws.bind_of_ok rfl, Throws.bind_of_ok hopened,
    Throws.bind_of_ok (dumpJson_valid (S := S) (j := .str text) htext).2.2]
  rfl

/-- What was encrypted under an encapsulated secret, to either identity of a keyed wallet, is decrypted by it. -/
theorem mlkemDecryptToString_sealed (hkem : S.kem.Correct) (hC : S.crypto.CorrectAead) (hreceiver : receiver.Keyed S) {set : Int}
    {publicKey coins ciphertext sharedSecret plaintext encrypted : ByteString} {call : Nat}
    (hderive : Wallet.deriveMlKemKeypair S.hash S.kem.toMlKem receiver.key set = .ok publicKey) (hcoins : coins.length = 32)
    (hencapsulate : S.kem.encapsulate set publicKey coins = some (ciphertext, sharedSecret))
    (hencrypted : Wallet.encryptWithSharedSecret S call plaintext sharedSecret = .ok encrypted) :
    receiver.mlkemDecryptToString S (Wallet.envelope (toBase64 ciphertext) (toBase64 encrypted)) = .ok plaintext := by
  obtain ⟨hset, hpublicKey⟩ := Wallet.isParameterSet_of_derive hderive
  obtain ⟨ciphertext', sharedSecret', hencapsulate', hsize, -, hdecapsulate⟩ := hkem.encapsulates _ hset _ coins publicKey
    (length_shake256 S.hash receiver.key 512) hcoins hpublicKey
  obtain ⟨rfl, rfl⟩ := Prod.mk.inj (Option.some.inj (hencapsulate.symm.trans hencapsulate'))
  have hidentity := hreceiver.decapsulationKey_eq hkem hset
  rw [← hsize, Wallet.mlkemPrivateKey, if_neg hreceiver.key] at hidentity
  have hcipherText : Wallet.entryAt (Wallet.envelope (toBase64 ciphertext) (toBase64 encrypted)) "cipherText" =
      .ok (toBase64 ciphertext) := rfl
  have hencryptedMessage : Wallet.entryAt (Wallet.envelope (toBase64 ciphertext) (toBase64 encrypted)) "encryptedMessage" =
      .ok (toBase64 encrypted) := rfl
  rw [Wallet.mlkemDecryptToString, Throws.bind_of_ok hcipherText, Throws.bind_of_ok hencryptedMessage]
  dsimp only
  rw [fromBase64_toBase64, fromBase64_toBase64, Throws.bind_of_ok hidentity,
    Throws.bind_of_ok (Throws.ofOption_eq _ hdecapsulate)]
  exact Wallet.decryptWithSharedSecret_encrypt hC hencrypted

/-- The body of a sealed reply becomes the text that was sealed. -/
theorem openBody_sealReply {T : Setting} (hkem : T.kem.Correct) (hC : T.crypto.CorrectAead)
    (hreceiver : receiver.Keyed T.toCipherSetting)
    {set : Int} {publicKey coins body reply : ByteString} {call : Nat}
    (hderive : Wallet.deriveMlKemKeypair T.hash T.kem.toMlKem receiver.key set = .ok publicKey) (hcoins : coins.length = 32)
    (hbody : body ≠ []) (hreply : sealReply T.toCipherSetting set publicKey coins call body = .ok reply) :
    openBody T receiver reply = body := by
  obtain ⟨⟨ciphertext, sharedSecret⟩, hencapsulate, h⟩ := Throws.bind_ok hreply
  obtain ⟨encrypted, hencrypted, h⟩ := Throws.bind_ok h
  obtain ⟨hash, hhash, h⟩ := Throws.bind_ok h
  have hutf8 : Utf8.valid hash = true := utf8_of_dumpJson hhash
  have hparse : Json.parse T.floatText reply = some (cipherReply hash) := by
    rw [(dumpJson_ok h).2, Json.parse_text _ _ (valid_cipherReply (S := T.toCipherSetting) hutf8)]
  have hopened : receiver.decryptMyMessageML T.toCipherSetting hash = .ok body := by
    rw [Wallet.decryptMyMessageML_addressed hkem hreceiver hderive hhash]
    exact mlkemDecryptToString_sealed hkem hC hreceiver hderive hcoins (Throws.ofOption_ok hencapsulate) hencrypted
  rw [openBody, hparse, Option.bind_some, cipherHash_cipherReply]
  dsimp only
  rw [hopened]
  exact if_neg hbody

end Reading

section Transparency

/-- A session with the keys of both sides: the wallet of the client, the wallet of its peer and the peer's public
key at the client's parameter set. -/
structure Paired (S : CipherSetting) (wallet peer : Wallet) (publicKey : ByteString) : Prop where
  kem : S.kem.Correct
  aead : S.crypto.CorrectAead
  random : ∀ call size, (S.crypto.randBytes call size).isSome
  walletKeyed : wallet.Keyed S
  peerKeyed : peer.Keyed S
  publicKey : Wallet.deriveMlKemKeypair S.hash S.kem.toMlKem peer.key wallet.mlkemParameterSet = .ok publicKey

/-- An encrypting client beside a plain one: they differ in the switch and in the random bytes, and what the peer
reads in what the first has posted is what the second has posted. -/
structure Mirrors (S : CipherSetting) (wallet peer : Wallet) (publicKey : ByteString) (impl plain : Impl) : Prop where
  cipherEnabled : impl.transport.cipherEnabled = true
  cipherWallet : impl.transport.cipherWallet = some wallet
  serverPubKey : impl.transport.serverPubKey = some (toBase64 publicKey)
  plainly : plain.transport = { impl.transport with cipherEnabled := false }
  counters : (plain.maxRetries, plain.totalRequests, plain.failedRequests, plain.retryCount, plain.lastRequestSucceeded) =
    (impl.maxRetries, impl.totalRequests, impl.failedRequests, impl.retryCount, impl.lastRequestSucceeded)
  posted : List.Forall₂ (fun data text => data = text ∨ openRequest S peer data = .ok text) impl.posted plain.posted

/-- The attempts of the encrypting client: as those of the plain one, but the reply to an encrypted request is
sealed for the client's wallet, at either of its parameter sets. -/
inductive Carried (S : CipherSetting) (wallet : Wallet) (request : Request) : Attempt → Attempt → Prop where
  | noHandle : Carried S wallet request .noHandle .noHandle
  | failed (message : ByteString) : Carried S wallet request (.failed message) (.failed message)
  | plain (statusCode : Int) (body : ByteString) (headers : List (ByteString × ByteString))
      (hplain : shouldEncryptRequest request = false) :
      Carried S wallet request (.replied statusCode body headers) (.replied statusCode body headers)
  | opened {statusCode : Int} {body reply : ByteString} {headers : List (ByteString × ByteString)} {set : Int}
      {publicKey coins : ByteString} {call : Nat} (hencrypted : shouldEncryptRequest request = true)
      (hderive : Wallet.deriveMlKemKeypair S.hash S.kem.toMlKem wallet.key set = .ok publicKey) (hcoins : coins.length = 32)
      (hbody : body ≠ []) (hreply : sealReply S set publicKey coins call body = .ok reply) :
      Carried S wallet request (.replied statusCode reply headers) (.replied statusCode body headers)

variable {S : Setting} {wallet peer : Wallet} {publicKey : ByteString} {request : Request}

/-- The body that the encrypting client posts is the one that the plain client posts, or one in which the peer reads
it. -/
def Posts (S : CipherSetting) (wallet peer : Wallet) (request : Request) (result plain : ByteString × Option Wallet) : Prop :=
  plain.2 = none ∧ (shouldEncryptRequest request = true ∧ openRequest S peer result.1 = .ok plain.1 ∧ result.2 = some wallet ∨
    shouldEncryptRequest request = false ∧ result.1 = plain.1 ∧ result.2 = none)

theorem Paired.toBase64_ne_nil (h : Paired S.toCipherSetting wallet peer publicKey) : toBase64 publicKey ≠ [] := by
  obtain ⟨found, hfound, hlength⟩ := Wallet.derive_ok h.kem peer.key h.walletKeyed.parameterSet
  obtain rfl := Except.ok.inj (hfound.symm.trans h.publicKey)
  have hpositive := Wallet.publicKeyBytes_pos wallet.mlkemParameterSet
  exact List.ne_nil_of_length_pos (lt_of_lt_of_le (hlength ▸ hpositive) (length_le_toBase64 found))

/-- With the keys of the session every text is encrypted, and the peer reads it. -/
theorem encrypts (h : Paired S.toCipherSetting wallet peer publicKey) {text : ByteString}
    (htext : Utf8.valid text = true) (call : Nat) :
    ∃ envelope data, wallet.encryptStringML S.toCipherSetting call text (toBase64 publicKey) = .ok envelope ∧
      wrapped envelope = .ok data ∧ openRequest S.toCipherSetting peer data = .ok text := by
  obtain ⟨coins, hcoins⟩ := Option.isSome_iff_exists.mp (h.random call 32)
  obtain ⟨iv, hiv⟩ := Option.isSome_iff_exists.mp (h.random (call + 1) 12)
  obtain ⟨ciphertext, encrypted, hreturns⟩ :=
    Wallet.encryptMessageML_returns h.kem h.aead h.walletKeyed.parameterSet htext h.publicKey hcoins hiv
  obtain ⟨envelope, henvelope⟩ := Wallet.addressed_written (S := S.toCipherSetting) (toBase64 publicKey) ciphertext encrypted
  have hstring := (Wallet.encryptStringML_eq hreturns).trans henvelope
  have hutf8 : Utf8.valid envelope = true := utf8_of_dumpJson henvelope
  have hwrapped : wrapped envelope = .ok (wrapper envelope).text :=
    (dumpJson_valid (S := S.toCipherSetting) (valid_wrapper hutf8)).1
  exact ⟨envelope, _, hstring, hwrapped,
    openRequest_wrapped h.kem h.aead h.peerKeyed h.walletKeyed.parameterSet h.publicKey hstring hwrapped⟩

theorem Mirrors.change {impl plain : Impl} (h : Mirrors S.toCipherSetting wallet peer publicKey impl plain)
    {impl' plain' : Impl} (htransport : impl'.transport = impl.transport) (htransport' : plain'.transport = plain.transport)
    (hposted : impl'.posted = impl.posted) (hposted' : plain'.posted = plain.posted)
    (hcounters : (plain'.maxRetries, plain'.totalRequests, plain'.failedRequests, plain'.retryCount,
      plain'.lastRequestSucceeded) =
      (impl'.maxRetries, impl'.totalRequests, impl'.failedRequests, impl'.retryCount, impl'.lastRequestSucceeded)) :
    Mirrors S.toCipherSetting wallet peer publicKey impl' plain' where
  cipherEnabled := htransport ▸ h.cipherEnabled
  cipherWallet := htransport ▸ h.cipherWallet
  serverPubKey := htransport ▸ h.serverPubKey
  plainly := by rw [htransport', htransport, h.plainly]
  counters := hcounters
  posted := by
    rw [hposted, hposted']
    exact h.posted

/-- The same cryptography with other attempts. -/
def Setting.withAttempts (S : Setting) (attempts : Nat → Attempt) : Setting := { S with curl := attempts }

variable {attempts : Nat → Attempt}

/-- Without encryption the body is the text of the request. -/
theorem postData_plain {T : Setting} {impl : Impl} (h : ¬ (impl.transport.cipherEnabled && shouldEncryptRequest request) = true) :
    (postData T request).exec impl = (request.toJsonString.map (·, none), impl) := by
  unfold postData
  rw [Act.exec_bind, Act.exec_get, Act.andThen_ok, if_neg h, Act.exec_bind, Act.exec_ofExcept]
  cases request.toJsonString <;> rfl

theorem lockstep_postData (h : Paired S.toCipherSetting wallet peer publicKey) :
    Act.Lockstep (Mirrors S.toCipherSetting wallet peer publicKey) (Posts S.toCipherSetting wallet peer request)
      (postData S request) (postData (S.withAttempts attempts) request) := by
  intro impl plain hmirrors
  rw [postData_plain (T := S.withAttempts attempts) (by simp [hmirrors.plainly])]
  by_cases hencrypted : shouldEncryptRequest request = true
  · have hon : (impl.transport.cipherEnabled && shouldEncryptRequest request) = true := by
      simp [hmirrors.cipherEnabled, hencrypted]
    have hkey : toBase64 publicKey ≠ [] := h.toBase64_ne_nil
    unfold postData
    simp only [Act.exec_bind, Act.exec_get, Act.andThen_ok, hon, if_true, hmirrors.cipherWallet, hmirrors.serverPubKey,
      Option.getD_some, if_neg hkey, Act.exec_ofExcept]
    cases htext : request.toJsonString with
    | error e => exact ⟨.error e, hmirrors⟩
    | ok text =>
      obtain ⟨envelope, data, henvelope, hdata, hopened⟩ := encrypts h (utf8_of_dumpJson htext) impl.randCalls
      simp only [Act.andThen_ok, Act.exec_bind, Act.exec_get, Act.exec_modify, Act.exec_ofExcept, henvelope, hdata, Act.exec_pure]
      exact ⟨.ok ⟨rfl, .inl ⟨hencrypted, hopened, rfl⟩⟩, hmirrors.change rfl rfl rfl rfl hmirrors.counters⟩
  · rw [postData_plain (by simp [hencrypted])]
    cases request.toJsonString with
    | error e => exact ⟨.error e, hmirrors⟩
    | ok text => exact ⟨.ok ⟨rfl, .inr ⟨by simpa using hencrypted, rfl, rfl⟩⟩, hmirrors⟩

/-- Posting a body: the histories go on side by side. -/
theorem lockstep_record {result plain : ByteString × Option Wallet}
    (h : Posts S.toCipherSetting wallet peer request result plain) :
    Act.Lockstep (Mirrors S.toCipherSetting wallet peer publicKey) Eq
      (modify fun impl : Impl => { impl with posted := impl.posted ++ [result.1] } : Act Exception Impl PUnit)
      (modify fun impl : Impl => { impl with posted := impl.posted ++ [plain.1] } : Act Exception Impl PUnit) := by
  have hbody : result.1 = plain.1 ∨ openRequest S.toCipherSetting peer result.1 = .ok plain.1 := by
    obtain ⟨-, ⟨-, hopened, -⟩ | ⟨-, hsame, -⟩⟩ := h
    · exact .inr hopened
    · exact .inl hsame
  exact .modify fun impl plain' hmirrors =>
    ⟨hmirrors.cipherEnabled, hmirrors.cipherWallet, hmirrors.serverPubKey, hmirrors.plainly,
    hmirrors.counters, List.rel_append hmirrors.posted (.cons hbody .nil)⟩

theorem lockstep_executeInternal (h : Paired S.toCipherSetting wallet peer publicKey)
    (hcarried : ∀ n, Carried S.toCipherSetting wallet request (S.curl n) (attempts n)) :
    Act.Lockstep (Mirrors S.toCipherSetting wallet peer publicKey) Eq
      (executeInternal S request) (executeInternal (S.withAttempts attempts) request) := by
  unfold executeInternal
  refine .bind .get fun impl plain hmirrors => ?_
  have hnumber : plain.totalRequests = impl.totalRequests := congrArg (fun c => c.2.1) hmirrors.counters
  refine .bind (.modify fun impl plain hmirrors => hmirrors.change rfl rfl rfl rfl ?_) fun _ _ _ => ?_
  · have hcounters := hmirrors.counters
    simp only [Prod.mk.injEq] at hcounters ⊢
    exact ⟨hcounters.1, congrArg (· + 1) hcounters.2.1, hcounters.2.2⟩
  have hattempt : (S.withAttempts attempts).curl plain.totalRequests = attempts impl.totalRequests := by rw [hnumber]; rfl
  rw [hattempt]
  have hcarried := hcarried impl.totalRequests
  generalize S.curl impl.totalRequests = attempt at hcarried ⊢
  generalize attempts impl.totalRequests = attempt' at hcarried ⊢
  cases hcarried with
  | noHandle => exact .throw _
  | failed message =>
    exact .bind (lockstep_postData h) fun result plain hposts => .bind (lockstep_record hposts) fun _ _ _ => .pure rfl
  | plain statusCode body headers hplain =>
    refine .bind (lockstep_postData h) fun result plain hposts => .bind (lockstep_record hposts) fun _ _ _ => .pure ?_
    obtain ⟨hnone, ⟨hencrypted, -⟩ | ⟨-, -, hwallet⟩⟩ := hposts
    · rw [hplain] at hencrypted
      cases hencrypted
    · rw [hnone, hwallet]
      rfl
  | opened hencrypted hderive hcoins hbody hreply =>
    refine .bind (lockstep_postData h) fun result plain hposts => .bind (lockstep_record hposts) fun _ _ _ => .pure ?_
    obtain ⟨hnone, ⟨-, -, hwallet⟩ | ⟨hplain, -⟩⟩ := hposts
    · rw [hnone, hwallet]
      simp only [openBody_sealReply h.kem h.aead h.walletKeyed hderive hcoins hbody hreply]
      rfl
    · rw [hencrypted] at hplain
      cases hplain

/-- The counters change in the same way. -/
theorem lockstep_count {f : Impl → Impl} (htransport : ∀ impl, (f impl).transport = impl.transport)
    (hposted : ∀ impl, (f impl).posted = impl.posted)
    (hcounters : ∀ impl plain : Impl,
      (plain.maxRetries, plain.totalRequests, plain.failedRequests, plain.retryCount, plain.lastRequestSucceeded) =
        (impl.maxRetries, impl.totalRequests, impl.failedRequests, impl.retryCount, impl.lastRequestSucceeded) →
      ((f plain).maxRetries, (f plain).totalRequests, (f plain).failedRequests, (f plain).retryCount,
        (f plain).lastRequestSucceeded) =
        ((f impl).maxRetries, (f impl).totalRequests, (f impl).failedRequests, (f impl).retryCount,
          (f impl).lastRequestSucceeded)) :
    Act.Lockstep (Mirrors S.toCipherSetting wallet peer publicKey) Eq
      (modify f : Act Exception Impl PUnit) (modify f : Act Exception Impl PUnit) :=
  .modify fun impl plain hmirrors => hmirrors.change (htransport impl) (htransport plain) (hposted impl) (hposted plain)
    (hcounters impl plain hmirrors.counters)

theorem lockstep_retryFrom (h : Paired S.toCipherSetting wallet peer publicKey)
    (hcarried : ∀ n, Carried S.toCipherSetting wallet request (S.curl n) (attempts n)) (n : Nat) (retry : Bool)
    (lastResponse : Response) :
    Act.Lockstep (Mirrors S.toCipherSetting wallet peer publicKey) Eq
      (retryFrom S request n retry lastResponse) (retryFrom (S.withAttempts attempts) request n retry lastResponse) := by
  induction n generalizing retry lastResponse with
  | zero =>
    refine .bind .get fun impl plain hmirrors => ?_
    have hretries : plain.maxRetries = impl.maxRetries := congrArg (fun c => c.1) hmirrors.counters
    rw [hretries]
    exact .bind (lockstep_count (fun _ => rfl) (fun _ => rfl) fun _ _ hc => by simp_all) fun _ _ _ => .pure rfl
  | succ n ih =>
    refine .bind (lockstep_count (fun impl => by cases retry <;> rfl) (fun impl => by cases retry <;> rfl) fun _ _ hc => by
      cases retry <;> simp_all [Impl.countRetry]) fun _ _ _ => ?_
    refine .bind (.tryCatch (lockstep_executeInternal h hcarried) fun e => ?_) fun response _ hsame => ?_
    · split
      · exact .throw e
      · exact .pure rfl
    subst hsame
    split
    · exact .bind (lockstep_count (fun _ => rfl) (fun _ => rfl) fun _ _ hc => by simp_all) fun _ _ _ => .pure rfl
    split
    · exact .bind (lockstep_count (fun _ => rfl) (fun _ => rfl) fun _ _ hc => by simp_all) fun _ _ _ => .pure rfl
    · exact ih true response

theorem lockstep_executeWithRetry (h : Paired S.toCipherSetting wallet peer publicKey)
    (hcarried : ∀ n, Carried S.toCipherSetting wallet request (S.curl n) (attempts n)) :
    Act.Lockstep (Mirrors S.toCipherSetting wallet peer publicKey) Eq
      (executeWithRetry S request) (executeWithRetry (S.withAttempts attempts) request) := by
  unfold executeWithRetry
  refine .bind .get fun impl plain hmirrors => ?_
  have hretries : plain.maxRetries = impl.maxRetries := congrArg (fun c => c.1) hmirrors.counters
  rw [hretries]
  exact lockstep_retryFrom h hcarried _ _ _

/-- Requests one after another, each with the outcomes of its attempts. -/
def executeAll (S : Setting) (exchanges : List (Request × (Nat → Attempt))) : Act Exception Impl (List Response) :=
  exchanges.mapM fun exchange => executeWithRetry (S.withAttempts exchange.2) exchange.1

/-- With the keys of both sides an encrypting client gets, in every session and through all retries, the responses
that a plain client gets, counts its requests in the same way, and posts bodies out of which the peer reads what the
plain client posts. -/
theorem encryption_is_transparent (h : Paired S.toCipherSetting wallet peer publicKey) {impl plain : Impl}
    (hmirrors : Mirrors S.toCipherSetting wallet peer publicKey impl plain)
    (exchanges : List (Request × (Nat → Attempt) × (Nat → Attempt)))
    (hcarried : ∀ exchange ∈ exchanges, ∀ n,
      Carried S.toCipherSetting wallet exchange.1 (exchange.2.1 n) (exchange.2.2 n)) :
    let sealed := (executeAll S (exchanges.map fun exchange => (exchange.1, exchange.2.1))).exec impl
    let plainly := (executeAll S (exchanges.map fun exchange => (exchange.1, exchange.2.2))).exec plain
    sealed.1 = plainly.1 ∧ Mirrors S.toCipherSetting wallet peer publicKey sealed.2 plainly.2 := by
  have hsession : Act.Lockstep (Mirrors S.toCipherSetting wallet peer publicKey) (List.Forall₂ Eq)
      (exchanges.mapM fun exchange => executeWithRetry (S.withAttempts exchange.2.1) exchange.1)
      (exchanges.mapM fun exchange => executeWithRetry (S.withAttempts exchange.2.2) exchange.1) := by
    exact .mapM fun exchange hexchange =>
      lockstep_executeWithRetry (S := S.withAttempts exchange.2.1) h (hcarried exchange hexchange)
  have : LawfulMonad (Act Exception Impl) := Act.lawfulMonad
  simp only [executeAll, List.mapM_map]
  obtain ⟨houtcome, hstates⟩ := hsession impl plain hmirrors
  rw [List.forall₂_eq_eq_eq] at houtcome
  exact ⟨houtcome.eq, hstates⟩

end Transparency

section Example

/-- Every reply can be sealed for a keyed wallet. -/
theorem sealReply_returns {S : CipherSetting} (hkem : S.kem.Correct) (hC : S.crypto.CorrectAead) {wallet : Wallet} {set : Int}
    {publicKey coins iv : ByteString} {call : Nat}
    (hderive : Wallet.deriveMlKemKeypair S.hash S.kem.toMlKem wallet.key set = .ok publicKey) (hcoins : coins.length = 32)
    (hiv : S.crypto.randBytes call 12 = some iv) (body : ByteString) :
    ∃ reply, sealReply S set publicKey coins call body = .ok reply := by
  obtain ⟨hset, hpublicKey⟩ := Wallet.isParameterSet_of_derive hderive
  obtain ⟨ciphertext, sharedSecret, hencapsulate, -, hsecret, -⟩ := hkem.encapsulates _ hset _ coins publicKey
    (length_shake256 S.hash wallet.key 512) hcoins hpublicKey
  obtain ⟨encrypted, hencrypted⟩ := Wallet.encryptWithSharedSecret_ok hC hsecret hiv body
  obtain ⟨hash, hhash⟩ := Wallet.addressed_written (S := S) (toBase64 publicKey) ciphertext encrypted
  have hutf8 : Utf8.valid hash = true := utf8_of_dumpJson hhash
  refine ⟨(cipherReply hash).text, ?_⟩
  rw [sealReply, Throws.bind_of_ok (Throws.ofOption_eq _ hencapsulate)]
  dsimp only
  rw [Throws.bind_of_ok hencrypted, Throws.bind_of_ok hhash]
  exact (dumpJson_valid (S := S) (valid_cipherReply hutf8)).1

def zeroSetting : Setting := { toCipherSetting := Wallet.zeroCipher, curl := fun _ => .noHandle }

theorem zero_paired : Paired Wallet.zeroCipher (Wallet.zeroWallet 1024) (Wallet.zeroWallet 1024) (List.replicate 1568 0) where
  kem := Wallet.zeroKem_correct
  aead := Wallet.zeroAead_correct
  random := fun _ _ => rfl
  walletKeyed := Wallet.zeroWallet_keyed
  peerKeyed := Wallet.zeroWallet_keyed
  publicKey := rfl

def zeroImpl : Impl :=
  { transport :=
      { cipherEnabled := true, cipherWallet := some (Wallet.zeroWallet 1024),
        serverPubKey := some (toBase64 (List.replicate 1568 0)) } }

theorem zero_mirrors : Mirrors Wallet.zeroCipher (Wallet.zeroWallet 1024) (Wallet.zeroWallet 1024)
    (List.replicate 1568 0) zeroImpl
    { zeroImpl with transport := { zeroImpl.transport with cipherEnabled := false } } :=
  ⟨rfl, rfl, rfl, rfl, rfl, .nil⟩

/-- A query whose first attempt fails and whose second one is answered. -/
theorem encryption_is_transparent_balance :
    ∃ reply, sealReply Wallet.zeroCipher 1024 (List.replicate 1568 0) (List.replicate 32 0) 0 (ascii "\x7b\x7d") = .ok reply ∧
      let sealed := (executeAll zeroSetting
        [(balanceRequest, fun n => if n = 0 then .failed [] else .replied 200 reply [])]).exec zeroImpl
      let plainly := (executeAll zeroSetting
        [(balanceRequest, fun n => if n = 0 then .failed [] else .replied 200 (ascii "\x7b\x7d") [])]).exec
          { zeroImpl with transport := { zeroImpl.transport with cipherEnabled := false } }
      sealed.1 = plainly.1 ∧
        Mirrors Wallet.zeroCipher (Wallet.zeroWallet 1024) (Wallet.zeroWallet 1024)
          (List.replicate 1568 0) sealed.2 plainly.2 := by
  have hcoins : (List.replicate 32 (0 : UInt8)).length = 32 := List.length_replicate
  obtain ⟨reply, hreply⟩ := sealReply_returns Wallet.zeroKem_correct Wallet.zeroAead_correct zero_paired.publicKey hcoins
    (show Wallet.zeroAead.randBytes 0 12 = some (List.replicate 12 0) from rfl) (ascii "\x7b\x7d")
  refine ⟨reply, hreply, ?_⟩
  refine encryption_is_transparent (S := zeroSetting) zero_paired zero_mirrors
    [(balanceRequest, fun n => if n = 0 then .failed [] else .replied 200 reply [],
      fun n => if n = 0 then .failed [] else .replied 200 (ascii "\x7b\x7d") [])]
      fun exchange hexchange n => ?_
  obtain rfl := List.mem_singleton.mp hexchange
  cases n with
  | zero => exact .failed []
  | succ n =>
    exact .opened (show shouldEncryptRequest balanceRequest = true by decide) zero_paired.publicKey hcoins (by decide) hreply

end Example

end GraphQLClient

end KnishIO
