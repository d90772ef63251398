import KnishIO.Http.FailClosed

open ByteString

namespace KnishIO

namespace GraphQLClient

/-- What `getStats` reports. -/
structure Stats where
  totalRequests : Nat
  failedRequests : Nat
  retryCount : Nat
  successRate : Nat
  deriving DecidableEq, Repr

/-- The rate is computed in `size_t`. -/
def Impl.getStats (impl : Impl) : Stats where
  totalRequests := impl.totalRequests
  failedRequests := impl.failedRequests
  retryCount := impl.retryCount
  successRate :=
    if impl.totalRequests > 0 then
      (((impl.totalRequests : Int) - impl.failedRequests) * 100 % 2 ^ 64).toNat / impl.totalRequests
    else 0

def Impl.isConnected (impl : Impl) : Bool := impl.lastRequestSucceeded

/-- A call of the client's interface; a request comes with the outcomes of its attempts. -/
inductive Call where
  | execute (request : Request) (attempts : Nat → Attempt)
  | setAuthToken (token : ByteString)
  | clearAuthToken
  | setEncryption (encrypt : Bool)
  | setCipherContext (wallet : Option Wallet) (serverPubKey : ByteString)
  | setRetryConfig (maxRetries : Int)

/-- The outcome of a request, if the call is one, and the client after it. -/
def Call.perform (S : Setting) (call : Call) (impl : Impl) : List (Except Exception Response) × Impl :=
  match call with
  | .execute request attempts =>
    let (outcome, impl) := (executeWithRetry { S with curl := attempts } request).exec impl
    ([outcome], impl)
  | .setAuthToken token => ([], { impl with transport := { impl.transport with authToken := some token } })
  | .clearAuthToken => ([], { impl with transport := { impl.transport with authToken := none } })
  | .setEncryption encrypt => ([], { impl with transport := { impl.transport with cipherEnabled := encrypt } })
  | .setCipherContext wallet serverPubKey =>
    ([], { impl with transport := { impl.transport with cipherWallet := wallet, serverPubKey := some serverPubKey } })
  | .setRetryConfig maxRetries => ([], { impl with maxRetries })

/-- The outcomes of all requests, in their order, and the client after the last call. -/
def performAll (S : Setting) : List Call → Impl → List (Except Exception Response) × Impl
  | [], impl => ([], impl)
  | call :: calls, impl =>
    let (outcomes, impl) := call.perform S impl
    let (rest, impl) := performAll S calls impl
    (outcomes ++ rest, impl)

/-- A request that returned a response which is no success. -/
def failed : Except Exception Response → Bool
  | .ok response => !response.isSuccess
  | .error _ => false

/-- The responses that were returned. -/
def returned (outcomes : List (Except Exception Response)) : List Response := outcomes.filterMap Except.toOption

section Attempts

variable {S : Setting} {request : Request}

/-- The counters, which only the retry loop and the first line of an attempt touch. -/
def Impl.counters (impl : Impl) : Int × Nat × Nat × Nat × Bool :=
  (impl.maxRetries, impl.totalRequests, impl.failedRequests, impl.retryCount, impl.lastRequestSucceeded)

instance counters_preorder : IsPreorder Impl fun impl impl' => impl'.counters = impl.counters where
  refl _ := rfl
  trans _ _ _ h h' := h'.trans h

theorem uncounted_postData : Act.Moves (fun impl impl' : Impl => impl'.counters = impl.counters) (postData S request) := by
  unfold postData
  refine Act.Moves.bind Act.Moves.get fun impl => ?_
  dsimp only
  split
  · split
    · exact Act.Moves.throw _
    · split
      · exact Act.Moves.throw _
      · refine Act.Moves.bind (Act.Moves.ofExcept _) fun text => Act.Moves.bind Act.Moves.get fun impl => ?_
        refine Act.Moves.bind (fun _ => rfl) fun _ => Act.Moves.bind (Act.Moves.ofExcept _) fun envelope => ?_
        exact Act.Moves.bind (Act.Moves.ofExcept _) fun _ => Act.Moves.pure _
  · exact Act.Moves.bind (Act.Moves.ofExcept _) fun _ => Act.Moves.pure _

/-- One attempt counts itself and nothing else. -/
theorem executeInternal_counters (impl : Impl) :
    ((executeInternal S request).exec impl).2.counters = { impl with totalRequests := impl.totalRequests + 1 }.counters := by
  unfold executeInternal
  rw [Act.exec_bind, Act.exec_get, Act.andThen_ok, Act.exec_bind, Act.exec_modify, Act.andThen_ok]
  split
  · rfl
  · exact Act.Moves.bind uncounted_postData (fun _ => Act.Moves.bind (fun _ => rfl) fun _ => Act.Moves.pure _) _
  · exact Act.Moves.bind uncounted_postData (fun _ => Act.Moves.bind (fun _ => rfl) fun _ => Act.Moves.pure _) _

/-- What an attempt of the loop leads to. -/
theorem retryFrom_succ (n : Nat) (retry : Bool) (lastResponse : Response) (impl : Impl) :
    (retryFrom S request (n + 1) retry lastResponse).exec impl =
      match (executeInternal S request).exec (impl.countRetry retry) with
      | (.error e, impl') =>
        if e.kind = .encryptedTransport then (.error e, impl')
        else (retryFrom S request n true { lastResponse with error := some e.what, statusCode := 0 }).exec impl'
      | (.ok response, impl') =>
        if response.isSuccess then (.ok response, { impl' with lastRequestSucceeded := true })
        else if 400 ≤ response.statusCode ∧ response.statusCode < 500 then
          (.ok response, { impl' with failedRequests := impl'.failedRequests + 1, lastRequestSucceeded := false })
        else (retryFrom S request n true response).exec impl' := by
  rw [retryFrom, Act.exec_bind, Act.exec_modify, Act.andThen_ok, Act.exec_bind, Act.exec_tryCatch]
  rcases (executeInternal S request).exec (impl.countRetry retry) with ⟨e | response, impl'⟩
  · dsimp only
    split
    · rfl
    · rfl
  · dsimp only
    rw [Act.andThen_ok]
    split
    · rfl
    split
    · rfl
    · rfl

/-- How a request ends after at least `least` and at most `most` further attempts: a response settles the counters
of failures and the connection, and only a refused encryption is thrown, which leaves them. -/
structure Ends (least most : Nat) (retry : Bool) (impl : Impl) (outcome : Except Exception Response) (impl' : Impl) : Prop where
  attempts : ∃ k, least ≤ k ∧ k ≤ most ∧ impl'.totalRequests = impl.totalRequests + k ∧
    impl'.retryCount + (if retry = false ∧ 0 < k then 1 else 0) = impl.retryCount + k
  maxRetries : impl'.maxRetries = impl.maxRetries
  response : ∀ response, outcome = .ok response → impl'.lastRequestSucceeded = response.isSuccess ∧
    impl'.failedRequests = impl.failedRequests + (!response.isSuccess).toNat
  refused : ∀ e, outcome = .error e → e.kind = .encryptedTransport ∧
    impl'.lastRequestSucceeded = impl.lastRequestSucceeded ∧ impl'.failedRequests = impl.failedRequests

variable {impl impl' final : Impl} {outcome : Except Exception Response}

/-- An attempt and what comes after it. -/
theorem Ends.step {least most : Nat} {retry : Bool}
    (hcounters : impl'.counters = { impl.countRetry retry with totalRequests := impl.totalRequests + 1 }.counters)
    (h : Ends least most true impl' outcome final) : Ends 1 (most + 1) retry impl outcome final := by
  obtain ⟨⟨k, -, hk, htotal, hretry⟩, hmax, hresponse, hrefused⟩ := h
  obtain ⟨hmax', htotal', hfailed', hretry', hlast'⟩ : impl'.maxRetries = impl.maxRetries ∧
      impl'.totalRequests = impl.totalRequests + 1 ∧ impl'.failedRequests = impl.failedRequests ∧
      impl'.retryCount = impl.retryCount + retry.toNat ∧ impl'.lastRequestSucceeded = impl.lastRequestSucceeded := by
    cases retry <;> simpa [Impl.counters, Impl.countRetry] using hcounters
  refine ⟨⟨k + 1, by omega, by omega, by omega, ?_⟩, hmax.trans hmax', fun response h => ?_, fun e h => ?_⟩
  · simp only [Bool.true_eq_false, false_and, if_false, Nat.add_zero] at hretry
    cases retry
    · simp only [true_and, if_pos (Nat.succ_pos k), Bool.toNat_false] at hretry' ⊢
      omega
    · simp only [Bool.true_eq_false, false_and, if_false, Bool.toNat_true] at hretry' ⊢
      omega
  · rw [← hfailed']
    exact hresponse response h
  · rw [← hfailed', ← hlast']
    exact hrefused e h

theorem Ends.refusal {most : Nat} {e : Exception} (hkind : e.kind = .encryptedTransport) :
    Ends 0 most true impl (.error e) impl :=
  ⟨⟨0, le_rfl, Nat.zero_le _, rfl, by simp⟩, rfl, nofun, fun e' h => by
    obtain rfl := Except.error.inj h
    exact ⟨hkind, rfl, rfl⟩⟩

theorem Ends.returns {most : Nat} {response : Response} (hmax : final.maxRetries = impl.maxRetries)
    (htotal : final.totalRequests = impl.totalRequests) (hretry : final.retryCount = impl.retryCount)
    (hlast : final.lastRequestSucceeded = response.isSuccess)
    (hfailed : final.failedRequests = impl.failedRequests + (!response.isSuccess).toNat) :
    Ends 0 most true impl (.ok response) final :=
  ⟨⟨0, le_rfl, Nat.zero_le _, htotal, by simp [hretry]⟩, hmax, fun response' h => by
    obtain rfl := Except.ok.inj h
    exact ⟨hlast, hfailed⟩, nofun⟩

theorem ends_retryFrom {n : Nat} {retry : Bool} {lastResponse : Response} (hlast : lastResponse.isSuccess = false) (impl : Impl) :
    Ends (min n 1) n retry impl ((retryFrom S request n retry lastResponse).exec impl).1
      ((retryFrom S request n retry lastResponse).exec impl).2 := by
  induction n generalizing retry lastResponse impl with
  | zero =>
    refine ⟨⟨0, le_rfl, le_rfl, rfl, by simp [retryFrom]⟩, rfl, fun response h => ?_, fun e h => nomatch h⟩
    obtain rfl := Except.ok.inj h
    have hfailed : ({ lastResponse with
        error := some (lastResponse.error.getD
          (ascii "Request failed after " ++ Decimal.ofInt impl.maxRetries ++ ascii " retries")) } :
            Response).isSuccess = false := hlast
    exact ⟨hfailed.symm, by rw [hfailed]; rfl⟩
  | succ n ih =>
    have hcounted := @executeInternal_counters S request (impl.countRetry retry)
    have htotal : (impl.countRetry retry).totalRequests = impl.totalRequests := by cases retry <;> rfl
    rw [retryFrom_succ, Nat.min_eq_right (Nat.le_add_left 1 n)]
    rcases hexec : (executeInternal S request).exec (impl.countRetry retry) with ⟨e | response, impl'⟩
    · rw [hexec, htotal] at hcounted
      dsimp only
      split
      case isTrue hkind => exact .step hcounted (.refusal hkind)
      case isFalse hkind => exact .step hcounted (ih rfl impl')
    · rw [hexec, htotal] at hcounted
      dsimp only
      split
      case isTrue hsuccess => exact .step hcounted (.returns rfl rfl rfl hsuccess.symm (by rw [hsuccess]; rfl))
      case isFalse hsuccess =>
        have hfailed : response.isSuccess = false := by simpa using hsuccess
        split
        · exact .step hcounted (.returns rfl rfl rfl hfailed.symm (by rw [hfailed]; rfl))
        · exact .step hcounted (ih hfailed impl')

end Attempts

section Accounts

variable {S : Setting}

/-- From one state of the client to a later one: the outcomes of the requests in between account for the counters. -/
structure Accounts (impl : Impl) (outcomes : List (Except Exception Response)) (impl' : Impl) : Prop where
  requests : impl'.totalRequests + impl.retryCount = impl.totalRequests + outcomes.length + impl'.retryCount
  failures : impl'.failedRequests = impl.failedRequests + outcomes.countP failed
  connected : impl'.lastRequestSucceeded =
    (((returned outcomes).getLast?.map Response.isSuccess).getD impl.lastRequestSucceeded)
  refused : ∀ e, .error e ∈ outcomes → e.kind = .encryptedTransport

theorem Accounts.nil {impl impl' : Impl} (htotal : impl'.totalRequests = impl.totalRequests)
    (hfailed : impl'.failedRequests = impl.failedRequests) (hretry : impl'.retryCount = impl.retryCount)
    (hlast : impl'.lastRequestSucceeded = impl.lastRequestSucceeded) : Accounts impl [] impl' :=
  ⟨by simp [htotal, hretry], by simp [hfailed], by simpa [returned] using hlast, nofun⟩

theorem Accounts.append {impl impl' impl'' : Impl} {first second : List (Except Exception Response)}
    (h : Accounts impl first impl')
    (h' : Accounts impl' second impl'') : Accounts impl (first ++ second) impl'' := by
  refine ⟨?_, ?_, ?_, fun e he => ?_⟩
  · have := h.requests
    have := h'.requests
    rw [List.length_append]
    omega
  · rw [h'.failures, h.failures, List.countP_append, Nat.add_assoc]
  · rw [h'.connected, h.connected, returned, returned, returned, List.filterMap_append, List.getLast?_append]
    cases (List.filterMap Except.toOption second).getLast? <;> simp
  · rcases List.mem_append.mp he with he | he
    · exact h.refused e he
    · exact h'.refused e he

/-- A client that makes at least one attempt. -/
theorem accounts_execute (request : Request) {impl : Impl} (hretries : 0 ≤ impl.maxRetries) :
    Accounts impl [((executeWithRetry S request).exec impl).1] ((executeWithRetry S request).exec impl).2 ∧
      ((executeWithRetry S request).exec impl).2.maxRetries = impl.maxRetries := by
  have hends := @ends_retryFrom S request (impl.maxRetries + 1).toNat false {} rfl impl
  change Accounts impl [((retryFrom S request (impl.maxRetries + 1).toNat false {}).exec impl).1]
    ((retryFrom S request (impl.maxRetries + 1).toNat false {}).exec impl).2 ∧
      ((retryFrom S request (impl.maxRetries + 1).toNat false {}).exec impl).2.maxRetries = impl.maxRetries
  obtain ⟨⟨k, hk, -, htotal, hretry⟩, hmax, hresponse, hrefused⟩ := hends
  refine ⟨?_, hmax⟩
  rw [Nat.min_eq_right (by omega)] at hk
  rw [if_pos ⟨rfl, by omega⟩] at hretry
  cases houtcome : ((retryFrom S request (impl.maxRetries + 1).toNat false {}).exec impl).1 with
  | ok response =>
    obtain ⟨hlast, hfailed⟩ := hresponse response houtcome
    refine ⟨?_, ?_, by simp [returned, hlast, Except.toOption], by simp⟩
    · rw [List.length_singleton]
      omega
    · rw [hfailed]
      cases hsuccess : response.isSuccess <;> simp [failed, hsuccess]
  | error e =>
    obtain ⟨hkind, hlast, hfailed⟩ := hrefused e houtcome
    refine ⟨?_, by simp [failed, hfailed], by simp [returned, hlast, Except.toOption], fun e' he => ?_⟩
    · rw [List.length_singleton]
      omega
    · obtain rfl := Except.error.inj (List.mem_singleton.mp he)
      exact hkind

/-- Without an attempt a request counts as failed all the same. -/
theorem executeWithRetry_unattempted (request : Request) {impl : Impl} (hretries : impl.maxRetries < 0) :
    (executeWithRetry S request).exec impl =
      (.ok { error := some (ascii "Request failed after " ++ Decimal.ofInt impl.maxRetries ++ ascii " retries") },
        { impl with failedRequests := impl.failedRequests + 1, lastRequestSucceeded := false }) := by
  have hnone : (impl.maxRetries + 1).toNat = 0 := by omega
  change (retryFrom S request (impl.maxRetries + 1).toNat false {}).exec impl = _
  rw [hnone]
  rfl

/-- The call leaves the number of retries at zero or more. -/
def Call.Retries : Call → Prop
  | .setRetryConfig maxRetries => 0 ≤ maxRetries
  | _ => True

theorem accounts_perform {call : Call} (hcall : call.Retries) {impl : Impl} (hretries : 0 ≤ impl.maxRetries) :
    Accounts impl (call.perform S impl).1 (call.perform S impl).2 ∧ 0 ≤ (call.perform S impl).2.maxRetries := by
  cases call with
  | execute request attempts =>
    obtain ⟨haccounts, hmax⟩ := @accounts_execute { S with curl := attempts } request impl hretries
    exact ⟨haccounts, hretries.trans_eq hmax.symm⟩
  | setRetryConfig maxRetries => exact ⟨.nil rfl rfl rfl rfl, hcall⟩
  | _ => exact ⟨.nil rfl rfl rfl rfl, hretries⟩

theorem accounts_performAll {calls : List Call} (hcalls : ∀ call ∈ calls, call.Retries) {impl : Impl}
    (hretries : 0 ≤ impl.maxRetries) : Accounts impl (performAll S calls impl).1 (performAll S calls impl).2 := by
  induction calls generalizing impl with
  | nil => exact .nil rfl rfl rfl rfl
  | cons call calls ih =>
    obtain ⟨hcall, hrest⟩ := List.forall_mem_cons.mp hcalls
    obtain ⟨haccounts, hkept⟩ := accounts_perform (S := S) hcall hretries
    exact haccounts.append (ih hrest hkept)

/-- The statistics of a client after any calls since its construction: every attempt beyond the first of a request
is a retry, a failure is a response without success, the last response decides whether the client is connected, and
the success rate counts every retry as a success. Nothing but a refused encryption is thrown. -/
theorem stats_performAll (S : Setting) {maxRetries : Int} (hretries : 0 ≤ maxRetries) {calls : List Call}
    (hcalls : ∀ call ∈ calls, call.Retries) :
    let outcomes := (performAll S calls { maxRetries }).1
    let client := (performAll S calls { maxRetries }).2
    client.getStats.totalRequests = outcomes.length + client.getStats.retryCount ∧
      client.getStats.failedRequests = outcomes.countP failed ∧
      client.getStats.successRate =
        (client.getStats.retryCount + outcomes.countP (!failed ·)) * 100 % 2 ^ 64 / client.getStats.totalRequests ∧
      client.isConnected = ((returned outcomes).getLast?.map Response.isSuccess).getD false ∧
      ∀ e, .error e ∈ outcomes → e.kind = .encryptedTransport := by
  obtain ⟨hrequests, hfailures, hconnected, hrefused⟩ := @accounts_performAll S calls hcalls { maxRetries } hretries
  generalize performAll S calls { maxRetries } = run at hrequests hfailures hconnected hrefused
  obtain ⟨outcomes, client⟩ := run
  simp only [Nat.add_zero, Nat.zero_add] at hrequests hfailures hconnected hrefused
  refine ⟨hrequests, hfailures, ?_, hconnected, hrefused⟩
  have hlength := outcomes.length_eq_countP_add_countP failed
  have hpassed : ((client.totalRequests : Int) - client.failedRequests) * 100 =
      ((client.retryCount + outcomes.countP (!failed ·)) * 100 : Nat) := by
    have hcount : outcomes.countP (!failed ·) = outcomes.countP fun o => decide ¬ failed o = true :=
      List.countP_congr fun o _ => by simp
    rw [hcount]
    push_cast
    omega
  have hwrapped (n : Nat) : ((n : Int) % 2 ^ 64).toNat = n % 2 ^ 64 := by omega
  simp only [Impl.getStats, hpassed, hwrapped]
  split
  case isTrue => rfl
  case isFalse hnone => rw [show client.totalRequests = 0 by omega, Nat.div_zero]

section Example

/-- A request whose first attempt fails and whose second is answered. -/
def retriedCalls : List Call :=
  [.setRetryConfig 1, .execute balanceRequest fun i =>
    if i = 0 then .failed (ascii "Couldn't connect to server") else .replied 200 (ascii "\x7b\x7d") []]

/-- It counts as two requests with a retry, of which both were successful. -/
theorem stats_performAll_retried :
    (performAll (.unkeyed fun _ => .noHandle) retriedCalls { maxRetries := 0 }).2.getStats.totalRequests =
      (performAll (.unkeyed fun _ => .noHandle) retriedCalls { maxRetries := 0 }).1.length +
        (performAll (.unkeyed fun _ => .noHandle) retriedCalls { maxRetries := 0 }).2.getStats.retryCount ∧
    (performAll (.unkeyed fun _ => .noHandle) retriedCalls { maxRetries := 0 }).2.getStats = ⟨2, 0, 1, 100⟩ := by
  have hcalls : ∀ call ∈ retriedCalls, call.Retries := by simp [retriedCalls, Call.Retries]
  exact ⟨(stats_performAll (.unkeyed fun _ => .noHandle) (by decide) hcalls).1, by decide +kernel⟩

end Example

end Accounts

end GraphQLClient

end KnishIO
