import KnishIO.Client.Progress
import KnishIO.Client.Simulation
import KnishIO.Http.Requests
import KnishIO.Http.Sealed

open ByteString

namespace KnishIO

open GraphQLClient

variable {N : Type}

section Http

/-- The network and the node behind it: for each exchange the outcomes of its attempts, by their number. -/
abbrev HttpNode (N : Type) := Request → N → (Nat → Attempt) × N

/-- What the client reads of a response. -/
def GraphQLClient.Response.reply (response : GraphQLClient.Response) : Reply := ⟨response.statusCode, response.body⟩

/-- A client whose exchanges are requests of its HTTP client. -/
def overHttp (S : CipherSetting) (draw : Nat → RandomHex) (clock : Nat → Nat → Int64) (node : HttpNode N) :
    Setting (Impl × N) where
  hash := S.hash
  kem := S.kem.toMlKem
  floatText := S.floatText
  draw := draw
  clock := clock
  serve request e :=
    let answered := node request e.2
    let run := (executeWithRetry { toCipherSetting := S, curl := answered.1 } request.http).exec e.1
    (match run.1 with
      | .ok response => response.reply
      -- a request that the transport refuses is not served
      | .error _ => ⟨0, []⟩,
      run.2, answered.2)

section Plain

variable {S : GraphQLClient.Setting} {request : GraphQLClient.Request}

def Unencrypted (impl : Impl) : Prop := impl.transport.cipherEnabled = false

theorem postData_unrefused :
    Act.Triple Unencrypted (postData S request) (fun _ => Unencrypted)
      (fun e impl => e.kind ≠ .encryptedTransport ∧ Unencrypted impl) := by
  intro impl hplain
  have hoff : impl.transport.cipherEnabled = false := hplain
  rw [postData_plain (by simp [hoff])]
  cases htext : request.toJsonString with
  | ok text => exact hplain
  | error e =>
    refine ⟨?_, hplain⟩
    unfold GraphQLClient.Request.toJsonString dumpJson at htext
    split at htext
    · cases htext
    · cases htext
      decide

theorem executeInternal_unrefused :
    Act.Triple Unencrypted (executeInternal S request) (fun _ => Unencrypted)
      (fun e impl => e.kind ≠ .encryptedTransport ∧ Unencrypted impl) := by
  have hrecord (r : ByteString × Option Wallet) :
      Act.Triple Unencrypted (modify fun impl : Impl => { impl with posted := impl.posted ++ [r.1] } : Act Exception Impl PUnit)
        (fun _ => Unencrypted) (fun e impl => e.kind ≠ .encryptedTransport ∧ Unencrypted impl) := .modify fun _ hplain => hplain
  unfold executeInternal
  refine .bind (R := fun _ => Unencrypted) (.get fun _ hplain => hplain) fun impl => ?_
  refine .bind (R := fun _ => Unencrypted) (.modify fun _ hplain => hplain) fun _ => ?_
  cases S.curl impl.totalRequests with
  | noHandle => exact .throw fun _ hplain => ⟨nofun, hplain⟩
  | failed message => exact .bind postData_unrefused fun r => .bind (hrecord r) fun _ => .pure fun _ hplain => hplain
  | replied statusCode body headers =>
    exact .bind postData_unrefused fun r => .bind (hrecord r) fun _ => .pure fun _ hplain => hplain

/-- Without encryption every failure is a response. -/
theorem retryFrom_returns (n : Nat) (retry : Bool) (lastResponse : GraphQLClient.Response) :
    Act.Triple Unencrypted (retryFrom S request n retry lastResponse) (fun _ _ => True) (fun _ _ => False) := by
  have hend (f : Impl → Impl) (response : GraphQLClient.Response) :
      Act.Triple Unencrypted ((modify f : Act Exception Impl PUnit) >>= fun _ => pure response) (fun _ _ => True)
        (fun _ _ => False) := fun _ _ => trivial
  induction n generalizing retry lastResponse with
  | zero => exact .bind (R := fun _ => Unencrypted) (.get fun _ hplain => hplain) fun impl => hend _ _
  | succ n ih =>
    refine .bind (R := fun _ => Unencrypted) (.modify fun impl hplain => ?_) fun _ => ?_
    · cases retry <;> exact hplain
    refine .bind (R := fun _ => Unencrypted) (.tryCatch executeInternal_unrefused fun e => ?_) fun response => ?_
    · split
      · exact .throw fun _ h => absurd ‹_› h.1
      · exact .pure fun _ h => h.2
    split
    · exact hend _ _
    split
    · exact hend _ _
    · exact ih true response

theorem executeWithRetry_returns {impl : Impl} (hplain : Unencrypted impl) :
    ∃ response impl', (executeWithRetry S request).exec impl = (.ok response, impl') := by
  have hreturns : Act.Triple Unencrypted (executeWithRetry S request) (fun _ _ => True) (fun _ _ => False) :=
    .bind (R := fun _ => Unencrypted) (.get fun _ hplain => hplain) fun impl => retryFrom_returns _ _ _
  cases hexec : (executeWithRetry S request).exec impl with
  | mk r impl' =>
    cases r with
    | ok response => exact ⟨response, impl', rfl⟩
    | error e => exact (hreturns.error hplain hexec).elim

end Plain

end Http

section Session

variable {S : CipherSetting} {draw : Nat → RandomHex} {clock : Nat → Nat → Int64} {wallet peer : Wallet} {publicKey : ByteString}
  {sealing plainly : HttpNode N}

/-- The transport of an encrypted session beside the same one in the clear. -/
structure Switched (wallet : Wallet) (publicKey : ByteString) (transport plain : Transport) : Prop where
  cipherWallet : transport.cipherWallet = some wallet
  serverPubKey : transport.serverPubKey = some (toBase64 publicKey)
  plain : plain = { transport with cipherEnabled := false }

/-- The HTTP clients and the nodes of both. -/
structure Matches (S : CipherSetting) (wallet peer : Wallet) (publicKey : ByteString) (e plain : Impl × N) : Prop where
  impl : Mirrors S wallet peer publicKey e.1 plain.1
  node : plain.2 = e.2

/-- One node seals for the wallet what the other answers in the clear. -/
structure Seals (S : CipherSetting) (wallet : Wallet) (sealing plainly : HttpNode N) : Prop where
  carried (request : Request) (n : N) (attempt : Nat) :
    Carried S wallet request.http ((sealing request n).1 attempt) ((plainly request n).1 attempt)
  next (request : Request) (n : N) : (plainly request n).2 = (sealing request n).2

theorem Switched.plain_permit {transport plain : Transport} (h : Switched wallet publicKey transport plain) (request : Request) :
    plain.permit request = .ok () := by
  simp [h.plain, Transport.permit]

theorem Switched.permit {transport plain : Transport} (h : Switched wallet publicKey transport plain)
    (hpaired : Paired S wallet peer publicKey) (request : Request) : transport.permit request = .ok () := by
  have hkey : ¬ toBase64 publicKey = [] :=
    Paired.toBase64_ne_nil (S := { toCipherSetting := S, curl := fun _ => .noHandle }) hpaired
  simp [Transport.permit, h.cipherWallet, h.serverPubKey, hkey]

theorem lockstep_served (h : Paired S wallet peer publicKey) (hseals : Seals S wallet sealing plainly)
    (request : Request) (n : N) :
    Act.Lockstep (Mirrors S wallet peer publicKey) Eq
      (executeWithRetry { toCipherSetting := S, curl := (sealing request n).1 } request.http)
      (executeWithRetry { toCipherSetting := S, curl := (plainly request n).1 } request.http) :=
  lockstep_executeWithRetry (S := { toCipherSetting := S, curl := (sealing request n).1 }) h
    (hseals.carried request n)

/-- With the keys of both sides a client cannot tell an encrypted session from one in the clear. -/
theorem encrypted_simulates (h : Paired S wallet peer publicKey) (hseals : Seals S wallet sealing plainly) :
    (overHttp S draw clock sealing).Simulates (overHttp S draw clock plainly).serve (Switched wallet publicKey)
      (Matches S wallet peer publicKey) where
  permit := by
    intro T T' hT request
    rw [hT.plain_permit, hT.permit h]
  reply := by
    intro e e' he request
    obtain ⟨houtcome, -⟩ := lockstep_served h hseals request e.2 _ _ he.impl
    dsimp only [overHttp]
    rw [he.node, houtcome.eq]
  env := by
    intro e e' he request
    obtain ⟨-, hmirrors⟩ := lockstep_served h hseals request e.2 _ _ he.impl
    dsimp only [overHttp]
    rw [he.node]
    exact ⟨hmirrors, hseals.next request e.2⟩

/-- Neither session refuses an exchange, and what the client gets is what its HTTP client makes of all attempts. -/
theorem encrypted_exchanges (h : Paired S wallet peer publicKey) (hseals : Seals S wallet sealing plainly)
    {w w' : World (Impl × N)}
    (hw : Beside (Switched wallet publicKey) (Matches S wallet peer publicKey) w w') (request : Request)
    (record : Reply → Event) :
    ∃ response impl', (executeWithRetry { toCipherSetting := S, curl := (sealing request w.env.2).1 } request.http).exec w.env.1 =
        (.ok response, impl') ∧
      (exchange (overHttp S draw clock sealing) request record).exec w =
        (.ok response.reply, { w with
          env := (impl', (sealing request w.env.2).2)
          log := w.log ++ [record response.reply] }) := by
  have hplain : Unencrypted w'.env.1 := by
    rw [Unencrypted, hw.env.impl.plainly]
  have hplainly : ∃ response plain,
      (executeWithRetry { toCipherSetting := S, curl := (plainly request w.env.2).1 } request.http).exec w'.env.1 =
        (.ok response, plain) := executeWithRetry_returns hplain
  obtain ⟨response, plain, hreturns⟩ := hplainly
  obtain ⟨houtcome, -⟩ := lockstep_served h hseals request w.env.2 _ _ hw.env.impl
  rw [hreturns] at houtcome
  rcases hexec : (executeWithRetry { toCipherSetting := S, curl := (sealing request w.env.2).1 } request.http).exec
    w.env.1 with ⟨r, impl'⟩
  rw [hexec] at houtcome
  obtain rfl := houtcome.eq
  refine ⟨response, impl', rfl, ?_⟩
  unfold exchange
  rw [Act.exec_bind, Act.exec_get, Act.andThen_ok, hw.transport.permit h]
  simp only [Act.exec_bind, Act.exec_ofExcept, Act.andThen_ok, Act.exec_set, Act.exec_pure, overHttp, hexec]

/-- With the keys of both sides every run of a client over the encrypted transport goes as over the plain one: its
calls return and throw the same, it signs the same molecules and gets the same replies, and the peer reads in what
it posts what is posted in the clear. -/
theorem session_is_transparent (h : Paired S wallet peer publicKey) (hseals : Seals S wallet sealing plainly) {ops : List Op}
    (hops : ∀ op ∈ ops, op.keepsSession = true) {w w' : World (Impl × N)}
    (hw : Beside (Switched wallet publicKey) (Matches S wallet peer publicKey) w w') :
    outcomes (overHttp S draw clock sealing) w ops = outcomes (overHttp S draw clock plainly) w' ops ∧
      Beside (Switched wallet publicKey) (Matches S wallet peer publicKey)
        (runOps (overHttp S draw clock sealing) w ops) (runOps (overHttp S draw clock plainly) w' ops) :=
  (encrypted_simulates h hseals).runs hops hw

end Session

section Example

/-- A node that answers every attempt with one body, and another one to encrypted requests. -/
def constantNode (encrypted plain : ByteString) : HttpNode Unit := fun request n =>
  (fun _ => .replied 200 (if shouldEncryptRequest request.http then encrypted else plain) [], n)

def sessionWorld (transport : Transport) : World (Impl × Unit) :=
  { client := { sampleClient with transport }, env := ({ zeroImpl with transport }, ()) }

/-- Metadata written with the pointer query in the clear and the molecule encrypted. -/
theorem session_is_transparent_meta :
    ∃ reply, sealReply Wallet.zeroCipher 1024 (List.replicate 1568 0) (List.replicate 32 0) 0 (ascii "\x7b\x7d") = .ok reply ∧
      let sealing := overHttp Wallet.zeroCipher scripted.draw scripted.clock (constantNode reply (ascii "\x7b\x7d"))
      let plainly := overHttp Wallet.zeroCipher scripted.draw scripted.clock (constantNode (ascii "\x7b\x7d") (ascii "\x7b\x7d"))
      let w := sessionWorld zeroImpl.transport
      let w' := sessionWorld { zeroImpl.transport with cipherEnabled := false }
      outcomes sealing w [.createMeta [] [] []] = outcomes plainly w' [.createMeta [] [] []] ∧
        Beside (Switched (Wallet.zeroWallet 1024) (List.replicate 1568 0))
          (Matches Wallet.zeroCipher (Wallet.zeroWallet 1024) (Wallet.zeroWallet 1024) (List.replicate 1568 0))
          (runOps sealing w [.createMeta [] [] []]) (runOps plainly w' [.createMeta [] [] []]) := by
  have hcoins : (List.replicate 32 (0 : UInt8)).length = 32 := List.length_replicate
  obtain ⟨reply, hreply⟩ := sealReply_returns Wallet.zeroKem_correct Wallet.zeroAead_correct zero_paired.publicKey hcoins
    (show Wallet.zeroAead.randBytes 0 12 = some (List.replicate 12 0) from rfl) (ascii "\x7b\x7d")
  have hseals : Seals Wallet.zeroCipher (Wallet.zeroWallet 1024) (constantNode reply (ascii "\x7b\x7d"))
      (constantNode (ascii "\x7b\x7d") (ascii "\x7b\x7d")) := by
    refine ⟨fun request n attempt => ?_, fun _ _ => rfl⟩
    dsimp only [constantNode]
    cases hencrypted : shouldEncryptRequest request.http with
    | true => exact .opened hencrypted zero_paired.publicKey hcoins (by decide) hreply
    | false => exact .plain 200 _ [] hencrypted
  have hbeside : Beside (Switched (Wallet.zeroWallet 1024) (List.replicate 1568 0))
      (Matches Wallet.zeroCipher (Wallet.zeroWallet 1024) (Wallet.zeroWallet 1024) (List.replicate 1568 0))
      (sessionWorld zeroImpl.transport) (sessionWorld { zeroImpl.transport with cipherEnabled := false }) :=
    ⟨rfl, ⟨rfl, rfl, rfl⟩, ⟨zero_mirrors, rfl⟩, rfl, rfl⟩
  have hops : ∀ op ∈ [Op.createMeta [] [] []], op.keepsSession = true := by simp [Op.keepsSession]
  exact ⟨reply, hreply, session_is_transparent zero_paired hseals hops hbeside⟩

end Example

end KnishIO
