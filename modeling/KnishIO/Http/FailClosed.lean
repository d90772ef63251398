import KnishIO.Http.GraphQLClient
import KnishIO.Storage.Atomicity

open ByteString

namespace KnishIO

namespace GraphQLClient

section Lengths

variable {S : CipherSetting} {w : Wallet}

theorem length_le_toBase64 (data : ByteString) : data.length ≤ (toBase64 data).length := by
  rw [length_toBase64]
  omega

theorem encryptWithSharedSecret_length {call : Nat} {message sharedSecret encrypted : ByteString}
    (h : Wallet.encryptWithSharedSecret S call message sharedSecret = .ok encrypted) :
    message.length < encrypted.length := by
  unfold Wallet.encryptWithSharedSecret at h
  split at h
  · cases h
  · obtain ⟨iv, _, h⟩ := Throws.bind_ok h
    obtain ⟨output, houtput, h⟩ := Throws.bind_ok h
    have hlength := S.crypto.length_encrypt _ _ _ _ (Throws.ofOption_ok houtput)
    rw [← Except.ok.inj h, List.length_append]
    omega

/-- The two members of an encrypted message; the second one is longer than the message. -/
theorem encryptMessageML_ok {call : Nat} {message recipientPubkey : ByteString} {envelope : List (ByteString × ByteString)}
    (h : w.encryptMessageML S call message recipientPubkey = .ok envelope) :
    ∃ cipherText encryptedMessage,
      envelope = [(ascii "cipherText", cipherText), (ascii "encryptedMessage", encryptedMessage)] ∧
      message.length < encryptedMessage.length := by
  unfold Wallet.encryptMessageML at h
  dsimp only at h
  split at h
  · cases h
  · obtain ⟨coins, _, h⟩ := Throws.bind_ok h
    obtain ⟨⟨ciphertext, sharedSecret⟩, _, h⟩ := Throws.bind_ok h
    obtain ⟨messageJson, hmessageJson, h⟩ := Throws.bind_ok h
    obtain ⟨encrypted, hencrypted, h⟩ := Throws.bind_ok h
    refine ⟨_, _, (Except.ok.inj h).symm, ?_⟩
    rw [(dumpJson_ok hmessageJson).2] at hencrypted
    have hmessage := Json.length_lt_length_text_str message
    have hsealed := encryptWithSharedSecret_length hencrypted
    have hbase64 := length_le_toBase64 encrypted
    omega

/-- An envelope is longer than the message in it. -/
theorem encryptStringML_length {call : Nat} {message recipientPubkey envelope : ByteString}
    (h : w.encryptStringML S call message recipientPubkey = .ok envelope) : message.length < envelope.length := by
  obtain ⟨entries, hentries, hdump⟩ := Throws.bind_ok h
  obtain ⟨cipherText, encryptedMessage, rfl, hlength⟩ := encryptMessageML_ok hentries
  rw [(dumpJson_ok hdump).2]
  have hentry : (Json.object [(ascii "cipherText", .str cipherText), (ascii "encryptedMessage", .str encryptedMessage)]).find?
      (ascii "encryptedMessage") = some (.str encryptedMessage) :=
    Json.find?_object_of_mem (show [ascii "cipherText", ascii "encryptedMessage"].Nodup by decide) (by simp)
  have hmap (entry : Json) : (Json.object [(Wallet.hashShare S.hash recipientPubkey, entry)]).find?
      (Wallet.hashShare S.hash recipientPubkey) = some entry :=
    Json.find?_object_of_mem (by simp) (by simp)
  have hstring := Json.length_lt_length_text_str encryptedMessage
  have hinner := Json.length_text_lt_of_find? hentry
  exact hlength.trans (hstring.trans (hinner.trans (Json.length_text_lt_of_find? (hmap _))))

/-- A wrapper is longer than its envelope. -/
theorem wrapped_length {envelope body : ByteString} (h : wrapped envelope = .ok body) : envelope.length < body.length := by
  rw [(dumpJson_ok h).2]
  have hvars (vars : Json) : (Json.object (Request.wireMembers { query := cipherHashQuery, vars := some vars })).find?
      (ascii "variables") = some vars :=
    Json.find?_object_of_mem (show [ascii "query", ascii "variables"].Nodup by decide) (by simp [Request.wireMembers])
  have hhash : (Json.object [(ascii "Hash", .str envelope)]).find? (ascii "Hash") = some (.str envelope) :=
    Json.find?_object_of_mem (by simp) (by simp)
  have hstring := Json.length_lt_length_text_str envelope
  exact hstring.trans ((Json.length_text_lt_of_find? hhash).trans (Json.length_text_lt_of_find? (hvars _)))

end Lengths

section Encrypted

variable (S : Setting) {impl : Impl} {request : Request}

/-- A body that wraps the encryption of a request to the server's key. -/
def Encrypted (transport : Transport) (request : Request) (body : ByteString) : Prop :=
  ∃ wallet key text envelope call, transport.cipherWallet = some wallet ∧ transport.serverPubKey = some key ∧ key ≠ [] ∧
    request.toJsonString = .ok text ∧ wallet.encryptStringML S.toCipherSetting call text key = .ok envelope ∧
    wrapped envelope = .ok body

/-- No wrapper is the plain request: it is longer. -/
theorem Encrypted.ne_plain {transport : Transport} {body : ByteString} (h : Encrypted S transport request body) :
    request.toJsonString ≠ .ok body := by
  obtain ⟨wallet, key, text, envelope, call, _, _, _, htext, henvelope, hbody⟩ := h
  rw [htext]
  rintro heq
  obtain rfl := Except.ok.inj heq
  have := encryptStringML_length henvelope
  have := wrapped_length hbody
  omega

/-- The keys are missing: no wallet, or no server key or an empty one. -/
def Keyless (transport : Transport) : Prop := transport.cipherWallet = none ∨ transport.serverPubKey.getD [] = []

instance (transport : Transport) : Decidable (Keyless transport) := inferInstanceAs (Decidable (_ ∨ _))

def refusal (transport : Transport) : Exception :=
  .encryptedTransport (if transport.cipherWallet.isNone then "Authorized wallet missing." else "Server public key missing.")

/-- Without keys the request is refused before anything happens. -/
theorem postData_keyless (hcipher : impl.transport.cipherEnabled = true) (hencrypt : shouldEncryptRequest request = true)
    (hkeyless : Keyless impl.transport) : (postData S request).exec impl = (.error (refusal impl.transport), impl) := by
  have hdecision : (impl.transport.cipherEnabled && shouldEncryptRequest request) = true := by simp [hcipher, hencrypt]
  unfold postData
  rw [Act.exec_bind, Act.exec_get, Act.andThen_ok, if_pos hdecision]
  cases hwallet : impl.transport.cipherWallet with
  | none => simp [refusal, hwallet]
  | some wallet =>
    have hkey : impl.transport.serverPubKey.getD [] = [] := hkeyless.resolve_left (by simp [hwallet])
    simp [refusal, hwallet, hkey]

/-- What building a body leaves behind, and what the body is. -/
theorem postData_ok {impl' : Impl} {result : Except Exception (ByteString × Option Wallet)}
    (h : (postData S request).exec impl = (result, impl')) :
    (∃ randCalls, impl' = { impl with randCalls }) ∧
      ∀ data wallet, result = .ok (data, wallet) → impl.transport.cipherEnabled = true →
        shouldEncryptRequest request = true → Encrypted S impl.transport request data := by
  by_cases hdecision : (impl.transport.cipherEnabled && shouldEncryptRequest request) = true
  · by_cases hkeyless : Keyless impl.transport
    · simp only [Bool.and_eq_true] at hdecision
      rw [postData_keyless S hdecision.1 hdecision.2 hkeyless, Prod.mk.injEq] at h
      obtain ⟨rfl, rfl⟩ := h
      exact ⟨⟨impl.randCalls, rfl⟩, by rintro _ _ ⟨⟩⟩
    · unfold Keyless at hkeyless
      push Not at hkeyless
      obtain ⟨wallet, hwallet⟩ := Option.ne_none_iff_exists'.mp hkeyless.1
      obtain ⟨key, hkey⟩ : ∃ key, impl.transport.serverPubKey = some key := by
        cases hkey : impl.transport.serverPubKey with
        | none => simp [hkey] at hkeyless
        | some key => exact ⟨key, rfl⟩
      have hne : key ≠ [] := by simpa [hkey] using hkeyless.2
      unfold postData at h
      rw [Act.exec_bind, Act.exec_get, Act.andThen_ok, if_pos hdecision] at h
      simp only [hwallet, hkey, Option.getD_some, if_neg hne, Act.exec_bind, Act.exec_ofExcept] at h
      cases htext : request.toJsonString with
      | error e =>
        simp only [htext, Act.andThen_error, Prod.mk.injEq] at h
        obtain ⟨rfl, rfl⟩ := h
        exact ⟨⟨impl.randCalls, rfl⟩, by rintro _ _ ⟨⟩⟩
      | ok text =>
        simp only [htext, Act.andThen_ok, Act.exec_bind, Act.exec_get, Act.exec_modify, Act.exec_ofExcept] at h
        cases henvelope : wallet.encryptStringML S.toCipherSetting impl.randCalls text key with
        | error e =>
          simp only [henvelope, Act.andThen_error, Prod.mk.injEq] at h
          obtain ⟨rfl, rfl⟩ := h
          exact ⟨⟨_, rfl⟩, by rintro _ _ ⟨⟩⟩
        | ok envelope =>
          simp only [henvelope, Act.andThen_ok, Act.exec_bind, Act.exec_ofExcept] at h
          cases hbody : wrapped envelope with
          | error e =>
            simp only [hbody, Act.andThen_error, Prod.mk.injEq] at h
            obtain ⟨rfl, rfl⟩ := h
            exact ⟨⟨_, rfl⟩, by rintro _ _ ⟨⟩⟩
          | ok body =>
            simp only [hbody, Act.andThen_ok, Act.exec_pure, Prod.mk.injEq] at h
            obtain ⟨rfl, rfl⟩ := h
            refine ⟨⟨_, rfl⟩, ?_⟩
            rintro data wallet' heq - -
            obtain ⟨rfl, rfl⟩ := Prod.mk.inj (Except.ok.inj heq)
            exact ⟨wallet, key, text, envelope, _, hwallet, hkey, hne, htext, henvelope, hbody⟩
  · unfold postData at h
    rw [Act.exec_bind, Act.exec_get, Act.andThen_ok, if_neg hdecision] at h
    simp only [Act.exec_bind, Act.exec_ofExcept] at h
    refine ⟨?_, fun data wallet _ hcipher hencrypt => absurd (by simp [hcipher, hencrypt]) hdecision⟩
    cases htext : request.toJsonString with
    | error e =>
      simp only [htext, Act.andThen_error, Prod.mk.injEq] at h
      exact ⟨impl.randCalls, h.2.symm⟩
    | ok text =>
      simp only [htext, Act.andThen_ok, Act.exec_pure, Prod.mk.injEq] at h
      exact ⟨impl.randCalls, h.2.symm⟩

/-- From one state of the transport to a later one: the session is the same, and what was posted in between is
encrypted where the request asks for it. -/
def Sends (request : Request) (impl impl' : Impl) : Prop :=
  impl'.transport = impl.transport ∧ ∃ bodies, impl'.posted = impl.posted ++ bodies ∧
    ∀ body ∈ bodies, impl.transport.cipherEnabled = true → shouldEncryptRequest request = true →
      Encrypted S impl.transport request body

instance sends_preorder (request : Request) : IsPreorder Impl (Sends S request) where
  refl impl := ⟨rfl, [], by simp, by simp⟩
  trans a b c := by
    rintro ⟨htransport, bodies, hposted, hbodies⟩ ⟨htransport', bodies', hposted', hbodies'⟩
    refine ⟨htransport'.trans htransport, bodies ++ bodies', by rw [hposted', hposted, List.append_assoc], ?_⟩
    intro body hbody
    obtain h | h := List.mem_append.mp hbody
    · exact hbodies body h
    · rw [← htransport]
      exact hbodies' body h

/-- A change that leaves the session and the history as they are. -/
theorem sends_modify (f : Impl → Impl) (htransport : ∀ impl, (f impl).transport = impl.transport)
    (hposted : ∀ impl, (f impl).posted = impl.posted) : Act.Moves (Sends S request) (modify f : Act Exception Impl PUnit) :=
  fun impl => ⟨htransport impl, [], by simp [hposted impl], by simp⟩

/-- Posting a body. -/
theorem sends_post {β : Type} (f : ByteString × Option Wallet → Act Exception Impl β)
    (hf : ∀ result, Act.Moves (Sends S request) (f result)) :
    Act.Moves (Sends S request) (do
      let result ← postData S request
      modify fun impl => { impl with posted := impl.posted ++ [result.1] }
      f result) := by
  intro impl
  rw [Act.exec_bind]
  rcases hexec : (postData S request).exec impl with ⟨result, impl'⟩
  obtain ⟨⟨randCalls, rfl⟩, hencrypted⟩ := postData_ok S hexec
  cases result with
  | error e => exact ⟨rfl, [], by simp, by simp⟩
  | ok result =>
    rw [Act.andThen_ok, Act.exec_bind, Act.exec_modify, Act.andThen_ok]
    have hposted : Sends S request impl { impl with randCalls, posted := impl.posted ++ [result.1] } := by
      refine ⟨rfl, [result.1], rfl, fun body hbody hcipher hencrypt => ?_⟩
      rw [List.mem_singleton.mp hbody]
      exact hencrypted result.1 result.2 rfl hcipher hencrypt
    exact trans_of (Sends S request) hposted (hf result _)

theorem sends_executeInternal : Act.Moves (Sends S request) (executeInternal S request) := by
  unfold executeInternal
  refine Act.Moves.bind Act.Moves.get fun impl => ?_
  refine Act.Moves.bind (sends_modify S _ (fun _ => rfl) fun _ => rfl) fun _ => ?_
  split
  · exact Act.Moves.throw _
  · exact sends_post S _ fun _ => Act.Moves.pure _
  · exact sends_post S _ fun _ => Act.Moves.pure _

theorem sends_retryFrom (n : Nat) (retry : Bool) (lastResponse : Response) :
    Act.Moves (Sends S request) (retryFrom S request n retry lastResponse) := by
  induction n generalizing retry lastResponse with
  | zero =>
    refine Act.Moves.bind Act.Moves.get fun impl => ?_
    exact Act.Moves.bind (sends_modify S _ (fun _ => rfl) fun _ => rfl) fun _ => Act.Moves.pure _
  | succ n ih =>
    have hattempt : Act.Moves (Sends S request) (tryCatch (executeInternal S request) fun e =>
        if e.kind = .encryptedTransport then throw e
        else pure { lastResponse with error := some e.what, statusCode := 0 }) := by
      refine Act.Moves.tryCatch (sends_executeInternal S) fun e => ?_
      split
      · exact Act.Moves.throw _
      · exact Act.Moves.pure _
    refine Act.Moves.bind (sends_modify S _ (fun impl => by cases retry <;> rfl) fun impl => by cases retry <;> rfl) fun _ => ?_
    refine Act.Moves.bind hattempt fun response => ?_
    split
    · exact Act.Moves.bind (sends_modify S _ (fun _ => rfl) fun _ => rfl) fun _ => Act.Moves.pure _
    · split
      · exact Act.Moves.bind (sends_modify S _ (fun _ => rfl) fun _ => rfl) fun _ => Act.Moves.pure _
      · exact ih _ _

end Encrypted

section Keyless

variable (S : Setting) {impl : Impl} {request : Request}

/-- One attempt without keys: it posts nothing, and it is refused once it has a handle. -/
theorem executeInternal_keyless (hcipher : impl.transport.cipherEnabled = true)
    (hencrypt : shouldEncryptRequest request = true) (hkeyless : Keyless impl.transport) :
    (executeInternal S request).exec impl =
      (match S.curl impl.totalRequests with
        | .noHandle => .error (graphQLException (ascii "Failed to initialize CURL handle"))
        | _ => .error (refusal impl.transport), { impl with totalRequests := impl.totalRequests + 1 }) := by
  have hpost := @postData_keyless S { impl with totalRequests := impl.totalRequests + 1 } request hcipher hencrypt hkeyless
  unfold executeInternal
  rw [Act.exec_bind, Act.exec_get, Act.andThen_ok, Act.exec_bind, Act.exec_modify, Act.andThen_ok]
  cases S.curl impl.totalRequests with
  | noHandle => rfl
  | failed message => rw [Act.exec_bind, hpost, Act.andThen_error]
  | replied statusCode body headers => rw [Act.exec_bind, hpost, Act.andThen_error]

theorem countRetry_eq (retry : Bool) : impl.countRetry retry = { impl with retryCount := impl.retryCount + retry.toNat } := by
  cases retry <;> rfl

/-- A refusal ends the loop. -/
theorem retryFrom_refused {n : Nat} {retry : Bool} {lastResponse : Response} {e : Exception} {impl' : Impl}
    (h : (executeInternal S request).exec (impl.countRetry retry) = (.error e, impl')) (hkind : e.kind = .encryptedTransport) :
    (retryFrom S request (n + 1) retry lastResponse).exec impl = (.error e, impl') := by
  rw [retryFrom, Act.exec_bind, Act.exec_modify, Act.andThen_ok, Act.exec_bind, Act.exec_tryCatch, h]
  simp only [if_pos hkind, Act.exec_throw, Act.andThen_error]

/-- Every other exception is kept as an error of status 0 and the loop goes on. -/
theorem retryFrom_failed {n : Nat} {retry : Bool} {lastResponse : Response} {e : Exception} {impl' : Impl}
    (h : (executeInternal S request).exec (impl.countRetry retry) = (.error e, impl')) (hkind : e.kind ≠ .encryptedTransport) :
    (retryFrom S request (n + 1) retry lastResponse).exec impl =
      (retryFrom S request n true { lastResponse with error := some e.what, statusCode := 0 }).exec impl' := by
  rw [retryFrom, Act.exec_bind, Act.exec_modify, Act.andThen_ok, Act.exec_bind, Act.exec_tryCatch, h]
  simp only [if_neg hkind, Act.exec_pure, Act.andThen_ok]
  rfl

/-- The error of an attempt that had no handle. -/
def handleError : ByteString := ascii "GraphQL Error: Failed to initialize CURL handle"

/-- The loop without keys: attempts that have no handle are retried, and the first one that has a handle is
refused. -/
theorem retryFrom_keyless (hcipher : impl.transport.cipherEnabled = true)
    (hencrypt : shouldEncryptRequest request = true) (hkeyless : Keyless impl.transport) (n : Nat) (retry : Bool)
    (lastResponse : Response) :
    (∀ k < n, (∀ i < k, S.curl (impl.totalRequests + i) = .noHandle) → S.curl (impl.totalRequests + k) ≠ .noHandle →
      (retryFrom S request n retry lastResponse).exec impl =
        (.error (refusal impl.transport), { impl with
          totalRequests := impl.totalRequests + k + 1
          retryCount := impl.retryCount + k + retry.toNat })) ∧
    (0 < n → (∀ i < n, S.curl (impl.totalRequests + i) = .noHandle) → ∃ impl',
      (retryFrom S request n retry lastResponse).exec impl =
        (.ok { lastResponse with error := some handleError, statusCode := 0 }, impl')) := by
  induction n generalizing impl retry lastResponse with
  | zero => exact ⟨fun k hk => absurd hk (Nat.not_lt_zero k), fun hpos => absurd hpos (Nat.lt_irrefl 0)⟩
  | succ n ih =>
    have hstart := @executeInternal_keyless S (impl.countRetry retry) request
      (by rw [countRetry_eq]; exact hcipher) hencrypt (by rw [countRetry_eq]; exact hkeyless)
    simp only [countRetry_eq] at hstart
    cases hcurl : S.curl impl.totalRequests with
    | noHandle =>
      rw [hcurl] at hstart
      have hnext := @retryFrom_failed S impl request n retry lastResponse _ _ (by rw [countRetry_eq]; exact hstart)
        (by decide)
      obtain ⟨hrefused, hfailed⟩ := @ih { impl with
          retryCount := impl.retryCount + retry.toNat, totalRequests := impl.totalRequests + 1 }
        hcipher hkeyless true { lastResponse with error := some handleError, statusCode := 0 }
      have hindex (i : Nat) : impl.totalRequests + 1 + i = impl.totalRequests + (i + 1) := by omega
      constructor
      · intro k hk hbefore hat
        cases k with
        | zero => exact absurd hcurl hat
        | succ k =>
          rw [hnext]
          refine (hrefused k (by omega) (fun i hi => ?_) ?_).trans ?_
          · exact hindex i ▸ hbefore (i + 1) (by omega)
          · exact hindex k ▸ hat
          · simp only [Prod.mk.injEq, Impl.mk.injEq, true_and, and_true, Bool.toNat_true]
            omega
      · intro _ hall
        rw [hnext]
        cases n with
        | zero => exact ⟨_, rfl⟩
        | succ n => exact hfailed (by omega) fun i hi => hindex i ▸ hall (i + 1) (by omega)
    | _ =>
      rw [hcurl] at hstart
      constructor
      · intro k hk hbefore hat
        cases k with
        | succ k =>
          have := hbefore 0 (by omega)
          rw [Nat.add_zero, hcurl] at this
          cases this
        | zero =>
          rw [retryFrom_refused S (by rw [countRetry_eq]; exact hstart) rfl]
          simp only [Prod.mk.injEq, Impl.mk.injEq, true_and, and_true]
          omega
      · intro _ hall
        have := hall 0 (by omega)
        rw [Nat.add_zero, hcurl] at this
        cases this

end Keyless

/-- An encrypting client posts nothing but wrapped encryptions, under every configuration and in every sequence of
attempt outcomes. Without keys it posts nothing at all: the first attempt that has a handle is refused and is the
last one. -/
theorem executeWithRetry_fails_closed (S : Setting) (impl : Impl) (request : Request)
    (hcipher : impl.transport.cipherEnabled = true) (hencrypt : shouldEncryptRequest request = true) :
    ∃ bodies, ((executeWithRetry S request).exec impl).2.posted = impl.posted ++ bodies ∧
      (∀ body ∈ bodies, request.toJsonString ≠ .ok body ∧ Encrypted S impl.transport request body) ∧
      (Keyless impl.transport → bodies = [] ∧
        (∀ k : Nat, k ≤ impl.maxRetries → (∀ i < k, S.curl (impl.totalRequests + i) = .noHandle) →
          S.curl (impl.totalRequests + k) ≠ .noHandle →
            (executeWithRetry S request).exec impl =
              (.error (refusal impl.transport), { impl with
                totalRequests := impl.totalRequests + k + 1, retryCount := impl.retryCount + k })) ∧
        (0 ≤ impl.maxRetries → (∀ i : Nat, i ≤ impl.maxRetries → S.curl (impl.totalRequests + i) = .noHandle) →
          ∃ impl', (executeWithRetry S request).exec impl = (.ok { error := some handleError }, impl'))) := by
  obtain ⟨-, bodies, hposted, hbodies⟩ := Act.Moves.bind Act.Moves.get
    (fun impl => @sends_retryFrom S request (impl.maxRetries + 1).toNat false {}) impl
  refine ⟨bodies, hposted, fun body hbody => ?_, fun hkeyless => ⟨?_, ?_, ?_⟩⟩
  · have hencrypted := hbodies body hbody hcipher hencrypt
    exact ⟨hencrypted.ne_plain, hencrypted⟩
  · by_contra hne
    obtain ⟨body, hbody⟩ := List.exists_mem_of_ne_nil bodies hne
    obtain ⟨wallet, key, _, _, _, hwallet, hkey, hnonempty, _⟩ := hbodies body hbody hcipher hencrypt
    rcases hkeyless with h | h
    · rw [hwallet] at h
      cases h
    · rw [hkey] at h
      exact hnonempty h
  · intro k hk hbefore hat
    exact (retryFrom_keyless S hcipher hencrypt hkeyless (impl.maxRetries + 1).toNat false {}).1 k (by omega) hbefore hat
  · intro hretries hall
    exact (retryFrom_keyless S hcipher hencrypt hkeyless (impl.maxRetries + 1).toNat false {}).2 (by omega) fun i hi =>
      hall i (by omega)

section Example

/-- A transport without an ML-KEM primitive. -/
def Setting.unkeyed (curl : Nat → Attempt) : Setting where
  hash := .constant 0
  kem := {
    publicKey := fun _ _ => none
    privateKey := fun _ _ => []
    encapsulate := fun _ _ _ => none
    decapsulate := fun _ _ _ => none }
  crypto := .transparent
  floatText := integersOnly
  curl

def balanceRequest : Request := { query := ascii "query B \x7b Balance(token: \"USER\") \x7b address \x7d \x7d" }

def encrypting : Impl := { transport := { cipherEnabled := true }, maxRetries := 1 }

theorem executeWithRetry_refused :
    (executeWithRetry (.unkeyed fun _ => .failed (ascii "Couldn't connect to server")) balanceRequest).exec encrypting =
      (.error (.encryptedTransport "Authorized wallet missing."), { encrypting with totalRequests := 1 }) := by
  obtain ⟨_, _, _, hkeyless⟩ := executeWithRetry_fails_closed
    (.unkeyed fun _ => .failed (ascii "Couldn't connect to server")) encrypting balanceRequest rfl (by decide)
  exact (hkeyless (.inl rfl)).2.1 0 (by decide) (fun i hi => absurd hi (Nat.not_lt_zero i)) nofun

/-- An attempt that has no handle is retried before the missing keys are noticed, and where none has a handle they
never are. -/
theorem executeWithRetry_without_handle :
    (executeWithRetry (.unkeyed fun i => if i = 0 then .noHandle else .failed (ascii "Couldn't connect to server"))
        balanceRequest).exec encrypting =
      (.error (.encryptedTransport "Authorized wallet missing."), { encrypting with totalRequests := 2, retryCount := 1 }) ∧
    ∃ impl', (executeWithRetry (.unkeyed fun _ => .noHandle) balanceRequest).exec encrypting =
      (.ok { error := some handleError }, impl') := by
  have hencrypt : shouldEncryptRequest balanceRequest = true := by decide
  constructor
  · have hloop := @retryFrom_keyless
      (.unkeyed fun i => if i = 0 then .noHandle else .failed (ascii "Couldn't connect to server")) encrypting _ rfl
        hencrypt (.inl rfl) 2 false {}
    refine hloop.1 1 (by decide) ?_ nofun
    intro i hi
    obtain rfl : i = 0 := by omega
    rfl
  · have hloop := @retryFrom_keyless (.unkeyed fun _ => .noHandle) encrypting _ rfl hencrypt (.inl rfl) 2 false {}
    exact hloop.2 (by decide) fun _ _ => rfl

end Example

end GraphQLClient

end KnishIO
