import KnishIO.Client.Signers
import KnishIO.Molecule.ValueBuilders

open ByteString

namespace KnishIO

variable {E : Type} {S : Setting E} {w : World E} {secret : Secret} {built : Molecule}

section Steps

variable {α β : Type}

/-- A part that returns goes first. -/
theorem exec_bind_of_ok {x : Run E α} {f : α → Run E β} {a : α} {t : World E} (h : x.exec w = (.ok a, t)) :
    (x >>= f).exec w = (f a).exec t := by
  rw [Act.exec_bind, h, Act.andThen_ok]

theorem exec_require_pos {c : Prop} [Decidable c] {e : Exception} (hc : c) :
    (Act.require c e : Run E PUnit).exec w = (.ok ⟨⟩, w) := by
  rw [Act.require, if_pos hc]
  rfl

theorem exec_ensureAuthenticated (h : w.client.isAuthenticated = true) :
    (ensureAuthenticated : Run E Unit).exec w = (.ok (), w) := exec_require_pos h

theorem exec_secretValue (h : w.client.secret = some secret) : (secretValue : Run E Secret).exec w = (.ok secret, w) := by
  simp only [secretValue, Act.exec_bind, Act.exec_get, Act.andThen_ok, h, Act.exec_pure]

theorem exec_getBundle {bundle : ByteString} (h : w.client.bundle = some bundle) :
    (getBundle : Run E ByteString).exec w = (.ok bundle, w) := by
  simp only [getBundle, Act.exec_bind, Act.exec_get, Act.andThen_ok, h, Act.exec_pure]

theorem permit_of_plain {transport : Transport} (h : transport.cipherEnabled = false) (request : Request) :
    transport.permit request = .ok () := by
  simp [Transport.permit, h]

theorem exec_resolveTokenWallet (h : w.client.transport.cipherEnabled = false) (bundle token : ByteString) (buffer : Bool) :
    (resolveTokenWallet S bundle token buffer).exec w =
      (.ok ((S.serve (.balance bundle token buffer) w.env).1.tokenWallet S.floatText),
        w.asked S (.balance bundle token buffer)) := by
  simp only [resolveTokenWallet, Act.exec_tryCatch, Act.exec_bind, query, exec_exchange, permit_of_plain h, Act.andThen_ok,
    Act.exec_pure]
  rfl

theorem exec_newWallet_drawn {token : ByteString} {mlkemParameterSet otsVersion : Int} {wallet : Wallet}
    (h : Wallet.new S.hash S.kem secret.bytes token (S.draw w.drawn).bytes mlkemParameterSet otsVersion = .ok wallet) :
    (newWallet S secret token [] mlkemParameterSet otsVersion).exec w = (.ok wallet, { w with drawn := w.drawn + 1 }) := by
  have hdraw : (randomHex S).exec w = (.ok (S.draw w.drawn).bytes, { w with drawn := w.drawn + 1 }) := rfl
  rw [newWallet, if_pos rfl, exec_bind_of_ok hdraw, Act.exec_ofExcept, h]

theorem exec_newWallet_at {token position : ByteString} {mlkemParameterSet otsVersion : Int} {wallet : Wallet}
    (hposition : position ≠ [])
    (h : Wallet.new S.hash S.kem secret.bytes token position mlkemParameterSet otsVersion = .ok wallet) :
    (newWallet S secret token position mlkemParameterSet otsVersion).exec w = (.ok wallet, w) := by
  have hgiven : (pure position : Run E ByteString).exec w = (.ok position, w) := rfl
  rw [newWallet, if_neg hposition, exec_bind_of_ok hgiven, Act.exec_ofExcept, h]

theorem exec_ledgerWallet {token : ByteString} {mlKemParameterSet version : Int} {info : TokenWalletInfo} {ledger : Wallet}
    (hposition : info.position ≠ [])
    (hversion : w.client.bindOwnWalletOtsVersion S.hash token info.position info.address = .ok version)
    (h : Wallet.new S.hash S.kem secret.bytes token info.position mlKemParameterSet version = .ok ledger) :
    (ledgerWallet S secret token mlKemParameterSet info).exec w = (.ok ledger, w) := by
  rw [ledgerWallet, exec_bind_of_ok (Act.exec_get w), exec_bind_of_ok (by rw [Act.exec_ofExcept, hversion]),
    exec_newWallet_at hposition h]

theorem exec_assemble {cellSlug : ByteString} {source remainder : Wallet} {b : Molecule.Builder} {atoms : List Atom}
    (h : (b.run (S.clock w.drawn)).run (Molecule.withWallets cellSlug (S.clock w.drawn 0) source remainder) =
      .ok (atoms, built)) :
    (assemble S cellSlug source remainder b).exec w = (.ok built, w) := by
  rw [assemble, exec_bind_of_ok (Act.exec_get w), exec_bind_of_ok (by rw [Act.exec_ofExcept, h])]
  rfl

end Steps

/-- A molecule in order, with the secret of its signer. -/
structure Submittable (H : Shake256) (secret : Secret) (built : Molecule) : Prop where
  nonempty : built.atoms ≠ []
  address : ∀ front rest, built.atoms = front :: rest →
    Wallet.addressAt H secret.bytes front.token front.position built.signingOtsVersion = .ok front.walletAddress
  unsigned : ∀ a ∈ built.atoms, a.otsFragment = []
  continuId : Molecule.verifyContinuId built = true
  conserved : ∀ hash, hash ≠ [] → Molecule.verifyTokenIsotopeV { built with molecularHash := hash } = .ok true
  utf8 : built.WireUtf8
  balance : built.ReadableBalance

/-- A signed form of a molecule that passes the check. -/
structure Molecule.Completes (H : Shake256) (built m : Molecule) : Prop where
  atoms : m.atoms.map Atom.unsigned = built.atoms.map Atom.unsigned
  source : m.sourceWallet = built.sourceWallet
  check : Molecule.check H m = .ok ()

/-- It is signed and sent, with strings of UTF-8. -/
theorem Submittable.sends (h : Submittable S.hash secret built) (hsecret : w.client.secret = some secret)
    (hplain : w.client.transport.cipherEnabled = false) :
    ∃ m, built.Completes S.hash m ∧ m.WireUtf8 ∧ ((submitMolecule S built).exec w).2 = w.proposed S secret m := by
  obtain ⟨front, rest, hatoms⟩ := List.exists_cons_of_ne_nil h.nonempty
  obtain ⟨position, m, hsign, hcheck, hutf8, hsource, hsame⟩ := Molecule.sign_accepted hatoms h.unsigned
    (h.address front rest hatoms) h.continuId h.conserved h.utf8 false true
  have hbalance : m.ReadableBalance := fun wallet hwallet => h.balance wallet (hsource ▸ hwallet)
  obtain ⟨json, htext, -, -⟩ := Molecule.toJson_ok S.floatText hbalance hutf8
  have hchecked : (Act.ofExcept ((Molecule.check S.hash m).mapError recast) : Run E Unit).exec w = (.ok (), w) := by
    rw [hcheck]
    rfl
  refine ⟨m, ⟨hsame, hsource, hcheck⟩, hutf8, ?_⟩
  rw [submitMolecule, exec_bind_of_ok (Act.exec_get w)]
  simp only [hsecret]
  rw [exec_bind_of_ok (by rw [Act.exec_ofExcept, Act.run_eq_ok.mpr hsign])]
  simp only [↓reduceIte]
  rw [exec_bind_of_ok hchecked, exec_bind_of_ok (by rw [htext, Act.exec_ofExcept]), Act.exec_bind, mutate,
    exec_exchange, permit_of_plain hplain]
  rfl

/-- A transfer that nothing refuses sends its molecule. -/
theorem transferToken_sends {bundleHash token batchId bundle : ByteString} {amount : BinaryFloat.Value}
    {units : List ByteString} {k version : Int} {info : TokenWalletInfo} {ledger drawn fresh source remainder recipient : Wallet}
    {atoms : List Atom}
    (hauth : w.client.isAuthenticated = true) (hsecret : w.client.secret = some secret)
    (hbundle : w.client.bundle = some bundle) (hplain : w.client.transport.cipherEnabled = false)
    (hinfo : (S.serve (.balance bundle token false) w.env).1.tokenWallet S.floatText = info) (hfound : info.found = true)
    (hk : toLongLong amount = .ok k) (hguard : k ≤ spendable info.balance) (hposition : info.position ≠ [])
    (hversion : w.client.bindOwnWalletOtsVersion S.hash token info.position info.address = .ok version)
    (hledger : Wallet.new S.hash S.kem secret.bytes token info.position 1024 version = .ok ledger)
    (hdrawn : Wallet.new S.hash S.kem secret.bytes token (S.draw w.drawn).bytes 1024 1 = .ok drawn)
    (hfresh : Wallet.new S.hash S.kem secret.bytes token (S.draw (w.drawn + 1)).bytes 1024
      (w.client.config.successorOtsVersion ledger.otsVersion) = .ok fresh)
    (hsplit : Wallet.splitUnits (info.fund ledger) units fresh (some (shadowOf drawn bundleHash batchId)) =
      (source, remainder, some recipient))
    (hbuild : ((Molecule.Builder.initValue source recipient remainder (Decimal.ofInt k)).run (S.clock (w.drawn + 2))).run
      (Molecule.withWallets (w.client.config.cellSlug.getD []) (S.clock (w.drawn + 2) 0) source remainder) =
        .ok (atoms, built))
    (hsubmittable : Submittable S.hash secret built) :
    ∃ u m, Quiet S w u ∧ ((transferToken S bundleHash token amount batchId units).exec w).2 = u.proposed S secret m ∧
      built.Completes S.hash m := by
  -- the states after the query, after the first draw and after the second
  let asked := w.asked S (.balance bundle token false)
  let first : World E := { asked with drawn := w.drawn + 1 }
  let second : World E := { asked with drawn := w.drawn + 2 }
  have hclient : asked.client = w.client := rfl
  have hquiet : Quiet S w second := .draw (.draw (.ask _ rfl .refl))
  have hledgerStep : (ledgerWallet S secret token 1024 info).exec asked = (.ok ledger, asked) :=
    exec_ledgerWallet hposition hversion hledger
  have hdrawnStep : (newWallet S secret token [] 1024 1).exec asked = (.ok drawn, first) := exec_newWallet_drawn hdrawn
  have hfreshStep : (newWallet S secret token [] 1024 (w.client.config.successorOtsVersion ledger.otsVersion)).exec first =
      (.ok fresh, second) := exec_newWallet_drawn hfresh
  obtain ⟨m, hcompletes, -, hsends⟩ := hsubmittable.sends (S := S) (w := second) hsecret hplain
  refine ⟨second, m, hquiet, ?_, hcompletes⟩
  rw [transferToken, exec_bind_of_ok (exec_ensureAuthenticated hauth), exec_bind_of_ok (exec_secretValue hsecret),
    exec_bind_of_ok (exec_getBundle hbundle), exec_bind_of_ok (exec_resolveTokenWallet hplain _ _ _), hinfo,
    exec_bind_of_ok (exec_require_pos hfound), exec_bind_of_ok (by rw [hk, Act.exec_ofExcept]),
    exec_bind_of_ok (exec_require_pos hguard), exec_bind_of_ok (Act.exec_get _)]
  dsimp only
  rw [hclient, exec_bind_of_ok hledgerStep, exec_bind_of_ok hdrawnStep, exec_bind_of_ok hfreshStep, hsplit,
    exec_bind_of_ok (exec_assemble hbuild)]
  exact hsends

section Example

/-- Under a hash with one output every digest is a run of zeros. -/
theorem shake256Hex_constant (s : ByteString) (bits : Nat) :
    shake256Hex (.constant 0) s bits = List.replicate (2 * (bits / 8)) 48 := by
  have hhex (n : Nat) : toHexString (List.replicate n 0) = List.replicate (2 * n) 48 := by
    induction n with
    | zero => rfl
    | succ n ih =>
      rw [List.replicate_succ, toHexString_cons, ih, Nat.mul_succ, List.replicate_succ, List.replicate_succ]
      rfl
  exact hhex (bits / 8)

/-- The wallet at a position under such a hash, with an ML-KEM that has one public key. -/
def zeroWallet (token position : ByteString) : Wallet where
  position := position
  token := token
  key := List.replicate 2048 48
  address := List.replicate 64 48
  bundle := List.replicate 64 48
  mlkemPublicKey := []
  mlkemParameterSet := 1024
  otsVersion := 1

def oneKey : MlKem := ⟨fun _ _ => some []⟩

theorem generateWalletKey_constant {secret position : ByteString} (token : ByteString) (hsecret : secret ≠ [])
    (hposition : position ≠ []) :
    Wallet.generateWalletKey (.constant 0) secret token position 1 = .ok (List.replicate 2048 48) := by
  obtain ⟨sum, hkey⟩ := Wallet.generateWalletKey_eq (.constant 0) token (.inl rfl) hsecret hposition
  rw [hkey, shake256Hex_constant]
  rfl

theorem addressAt_constant {secret position : ByteString} (token : ByteString) (hsecret : secret ≠ [])
    (hposition : position ≠ []) : Wallet.addressAt (.constant 0) secret token position 1 = .ok (List.replicate 64 48) := by
  rw [Wallet.addressAt, generateWalletKey_constant token hsecret hposition, Except.map, Wallet.generateWalletAddress,
    Wallet.addressOfEnds, shake256Hex_constant]

theorem new_constant {secret position : ByteString} (token : ByteString) (hsecret : secret ≠ []) (hposition : position ≠ []) :
    Wallet.new (.constant 0) oneKey secret token position 1024 1 = .ok (zeroWallet token position) := by
  have haddress : Wallet.generateWalletAddress (.constant 0) (List.replicate 2048 48) = List.replicate 64 48 := by
    rw [Wallet.generateWalletAddress, Wallet.addressOfEnds, shake256Hex_constant]
  have hbundle : Wallet.generateBundleHash (.constant 0) secret = List.replicate 64 48 := by
    rw [Wallet.generateBundleHash, shake256Hex_constant]
  rw [Wallet.new, Wallet.checkedOtsVersion_ok (.inl rfl)]
  change (do
    let key ← Wallet.generateWalletKey (.constant 0) secret token position 1
    let mlkemPublicKey ← Wallet.deriveMlKemKeypair (.constant 0) oneKey key 1024
    return _ : Throws Wallet) = _
  rw [generateWalletKey_constant token hsecret hposition]
  change Except.ok _ = Except.ok _
  rw [haddress, hbundle]
  rfl

/-- A node that answers from a list, to clients that draw one position only. -/
def scripted : Setting (List Reply) where
  hash := .constant 0
  kem := oneKey
  floatText := integersOnly
  draw := fun _ => ⟨List.replicate 64 97, by simp, by simp [isHexLower]⟩
  clock := fun _ _ => 0
  serve := fun _ replies => (replies.headD ⟨0, []⟩, replies.tail)

def sampleSecret : Secret := ⟨ascii "5ec7e7", by decide, by decide⟩

/-- An authorized client of OTS version 1. -/
def sampleClient : Client where
  config := { otsVersion := 1 }
  secret := some sampleSecret
  bundle := some (List.replicate 64 48)
  authToken := some (ascii "jwt")

/-- The reply of a Balance query on a wallet at position 0a. -/
def balanceReply (amount units : String) : Reply :=
  ⟨200, ascii "\x7b\"data\":\x7b\"Balance\":\x7b\"position\":\"0a\",\"address\":\"" ++ List.replicate 64 48 ++
    ascii "\",\"amount\":\"" ++ ascii amount ++ ascii "\",\"tokenUnits\":" ++ ascii units ++ ascii "\x7d\x7d\x7d"⟩

/-- The row of that reply. -/
def sampleRow (balance : ByteString) (tokenUnits : List TokenUnit) : TokenWalletInfo where
  position := ascii "0a"
  address := List.replicate 64 48
  balance := balance
  found := true
  tokenUnits := tokenUnits

def sampleWorld (reply : Reply) : World (List Reply) := { client := sampleClient, env := [reply] }

theorem bindOwnWalletOtsVersion_sample (token : ByteString) :
    sampleClient.bindOwnWalletOtsVersion (.constant 0) token (ascii "0a") (List.replicate 64 48) = .ok 1 := by
  have hlower : (List.replicate 64 48).map Wallet.toLower = List.replicate 64 48 := by decide
  have hdetect : Wallet.detectOtsVersion (.constant 0) sampleSecret.bytes token (ascii "0a") (List.replicate 64 48) 1 =
      .ok (some 1) := by
    have hfilled : ¬ (sampleSecret.bytes = [] ∨ ascii "0a" = [] ∨ List.replicate 64 (48 : UInt8) = []) := by decide
    have haddress := addressAt_constant token sampleSecret.nonempty (show ascii "0a" ≠ [] by decide)
    simp only [Wallet.detectOtsVersion, Wallet.checkedOtsVersion_ok (.inl rfl), bind, Except.bind, if_neg hfilled, haddress,
      hlower, ↓reduceIte, pure, Except.pure]
  have hfilled : ¬ (ascii "0a" = [] ∨ List.replicate 64 (48 : UInt8) = []) := by decide
  simp only [Client.bindOwnWalletOtsVersion, if_neg hfilled, sampleClient, hdetect]

/-- The source and the remainder of a transfer from that row. -/
def sampleSource (balance : ByteString) (sent : List TokenUnit) : Wallet :=
  { zeroWallet (ascii "T") (ascii "0a") with balance, tokenUnits := sent }

def sampleRemainder (kept : List TokenUnit) : Wallet :=
  { zeroWallet (ascii "T") (List.replicate 64 97) with tokenUnits := kept }

def sampleRecipient (sent : List TokenUnit) : Wallet :=
  { shadowOf (zeroWallet (ascii "T") (List.replicate 64 97)) (ascii "0d") [] with tokenUnits := sent }

/-- The molecule of such a transfer. -/
def sampleBuilt (balance value rest : ByteString) (sent kept : List TokenUnit) (sentMeta keptMeta : Metas) : Molecule :=
  { Molecule.withWallets [] 0 (sampleSource balance sent) (sampleRemainder kept) with
    atoms := [Molecule.debitAtom 0 "V" (sampleSource balance sent) [] [] sentMeta,
      Molecule.creditAtom 0 "V" (sampleRecipient sent) (ascii "T") value (ascii "0d") sentMeta 1,
      Molecule.creditAtom 0 "V" (sampleRemainder kept) (ascii "T") rest (List.replicate 64 48) keptMeta 2] }

theorem conserved_sample {balance value rest : ByteString} {sent kept : List TokenUnit} {sentMeta keptMeta : Metas}
    (hsums : Molecule.tokenSums [] (sampleBuilt balance value rest sent kept sentMeta keptMeta).atoms = .ok true)
    {hash : ByteString} (hhash : hash ≠ []) :
    Molecule.verifyTokenIsotopeV { sampleBuilt balance value rest sent kept sentMeta keptMeta with molecularHash := hash } =
      .ok true := by
  have hcross : (sampleBuilt balance value rest sent kept sentMeta keptMeta).atoms.any
      (fun a => Molecule.isB a || Molecule.isF a) = false := rfl
  exact (Molecule.verifyTokenIsotopeV_rehashed (List.cons_ne_nil _ _) hcross hhash).trans hsums

theorem wireUtf8_sample {balance value rest : ByteString} {sent kept : List TokenUnit} {sentMeta keptMeta : Metas}
    (hbalance : Utf8.valid (ascii "-" ++ balance) = true) (hvalue : Utf8.valid value = true)
    (hrest : Utf8.valid rest = true) (hsent : ∀ m ∈ sentMeta, Utf8.valid m.1 = true ∧ Utf8.valid m.2 = true)
    (hkept : ∀ m ∈ keptMeta, Utf8.valid m.1 = true ∧ Utf8.valid m.2 = true) :
    (sampleBuilt balance value rest sent kept sentMeta keptMeta).WireUtf8 := by
  have hzeros : Utf8.valid (List.replicate 64 48) = true := by decide
  have hdrawn : Utf8.valid (List.replicate 64 97) = true := by decide
  refine ⟨rfl, rfl, rfl, rfl, ?_, ?_⟩
  · simp only [sampleBuilt, List.forall_mem_cons, List.not_mem_nil, false_implies, implies_true, and_true]
    exact ⟨Atom.wireUtf8_new _ _ rfl hzeros rfl rfl hbalance rfl rfl rfl hsent,
      Atom.wireUtf8_new _ _ rfl rfl rfl rfl hvalue rfl rfl rfl hsent,
      Atom.wireUtf8_new _ _ hdrawn hzeros rfl rfl hrest rfl rfl hzeros hkept⟩
  · rintro w (hw | hw)
    · obtain rfl := Option.some.inj hw
      exact ⟨hzeros, rfl, rfl⟩
    · obtain rfl := Option.some.inj hw
      exact ⟨hzeros, hdrawn, rfl⟩

theorem submittable_sample {balance value rest : ByteString} {sent kept : List TokenUnit} {sentMeta keptMeta : Metas}
    (hsums : Molecule.tokenSums [] (sampleBuilt balance value rest sent kept sentMeta keptMeta).atoms = .ok true)
    (hstoi : ∃ k, stoi balance = .ok k) (hbalance : Utf8.valid (ascii "-" ++ balance) = true)
    (hvalue : Utf8.valid value = true) (hrest : Utf8.valid rest = true)
    (hsent : ∀ m ∈ sentMeta, Utf8.valid m.1 = true ∧ Utf8.valid m.2 = true)
    (hkept : ∀ m ∈ keptMeta, Utf8.valid m.1 = true ∧ Utf8.valid m.2 = true) :
    Submittable (.constant 0) sampleSecret (sampleBuilt balance value rest sent kept sentMeta keptMeta) where
  nonempty := List.cons_ne_nil _ _
  address := by
    intro front others hatoms
    obtain ⟨rfl, -⟩ := List.cons.inj hatoms
    exact addressAt_constant (ascii "T") sampleSecret.nonempty (show ascii "0a" ≠ [] by decide)
  unsigned := by simp [sampleBuilt, Molecule.debitAtom, Molecule.creditAtom, Atom.new]
  continuId := Molecule.verifyContinuId_of_token rfl (show ascii "T" ≠ ascii "USER" by decide)
  conserved _ hhash := conserved_sample hsums hhash
  utf8 := wireUtf8_sample hbalance hvalue hrest hsent hkept
  balance := by
    intro w hw
    obtain rfl := Option.some.inj hw
    exact .inr hstoi

theorem initValue_sample {balance : ByteString} {held k : Int} {sent kept : List TokenUnit} {sentMeta keptMeta : Metas}
    (hheld : stoi balance = .ok held) (hk : stoi (Decimal.ofInt k) = .ok k) (hrest : signed 32 (held - k) = .ok (held - k))
    (hsent : Molecule.unitsMeta sent = .ok sentMeta) (hkept : Molecule.unitsMeta kept = .ok keptMeta) :
    ((Molecule.Builder.initValue (sampleSource balance sent) (sampleRecipient sent) (sampleRemainder kept)
      (Decimal.ofInt k)).run fun _ => 0).run (Molecule.withWallets [] 0 (sampleSource balance sent) (sampleRemainder kept)) =
        .ok ((sampleBuilt balance (Decimal.ofInt k) (Decimal.ofInt (held - k)) sent kept sentMeta keptMeta).atoms,
          sampleBuilt balance (Decimal.ofInt k) (Decimal.ofInt (held - k)) sent kept sentMeta keptMeta) := by
  have hrun (clock : Nat → Int64) (source recipient remainder : Wallet) (value : ByteString) :
      (Molecule.Builder.initValue source recipient remainder value).run clock =
        Molecule.initValue clock source recipient remainder value := rfl
  have hsource : (sampleSource balance sent).tokenUnits = sent ∧ (sampleSource balance sent).balance = balance := ⟨rfl, rfl⟩
  have hrecipient : (sampleRecipient sent).tokenUnits = sent := rfl
  have hremainder : (sampleRemainder kept).tokenUnits = kept := rfl
  rw [hrun, Molecule.run_initValue, hsource.1, hsource.2, hrecipient, hremainder, hsent, hkept, hheld, hk]
  simp only [bind, Except.bind, hrest]
  rfl

/-- A transfer from that row to the bundle 0d. -/
theorem transferToken_sample {amount : BinaryFloat.Value} {units : List ByteString} {k held : Int} {reply : Reply}
    {balance : ByteString} {tokenUnits sent kept : List TokenUnit} {sentMeta keptMeta : Metas}
    (hreply : reply.tokenWallet integersOnly = sampleRow balance tokenUnits) (hk : toLongLong amount = .ok k)
    (hguard : k ≤ spendable balance)
    (hsplit : Wallet.splitUnits (sampleSource balance tokenUnits) units (sampleRemainder []) (some (sampleRecipient [])) =
      (sampleSource balance sent, sampleRemainder kept, some (sampleRecipient sent)))
    (hheld : stoi balance = .ok held) (hspent : stoi (Decimal.ofInt k) = .ok k)
    (hrest : signed 32 (held - k) = .ok (held - k)) (hsent : Molecule.unitsMeta sent = .ok sentMeta)
    (hkept : Molecule.unitsMeta kept = .ok keptMeta)
    (hsums : Molecule.tokenSums []
      (sampleBuilt balance (Decimal.ofInt k) (Decimal.ofInt (held - k)) sent kept sentMeta keptMeta).atoms = .ok true)
    (hbalance : Utf8.valid (ascii "-" ++ balance) = true)
    (hsentUtf8 : ∀ m ∈ sentMeta, Utf8.valid m.1 = true ∧ Utf8.valid m.2 = true)
    (hkeptUtf8 : ∀ m ∈ keptMeta, Utf8.valid m.1 = true ∧ Utf8.valid m.2 = true) :
    ∃ u m, Quiet scripted (sampleWorld reply) u ∧
      ((transferToken scripted (ascii "0d") (ascii "T") amount [] units).exec (sampleWorld reply)).2 =
        u.proposed scripted sampleSecret m ∧
      (sampleBuilt balance (Decimal.ofInt k) (Decimal.ofInt (held - k)) sent kept sentMeta keptMeta).Completes
        (.constant 0) m := by
  have hnew {position : ByteString} (hposition : position ≠ []) :
      Wallet.new (.constant 0) oneKey sampleSecret.bytes (ascii "T") position 1024 1 = .ok (zeroWallet (ascii "T") position) :=
    new_constant (ascii "T") sampleSecret.nonempty hposition
  have hdraw : (List.replicate 64 97 : ByteString) ≠ [] := by simp
  have hbuild := initValue_sample hheld hspent hrest hsent hkept
  have hsubmittable := submittable_sample hsums ⟨held, hheld⟩ hbalance (Atom.utf8_ofInt k) (Atom.utf8_ofInt _) hsentUtf8
    hkeptUtf8
  exact transferToken_sends rfl rfl rfl rfl hreply rfl hk hguard (show ascii "0a" ≠ [] by decide)
    (bindOwnWalletOtsVersion_sample (ascii "T")) (hnew (show ascii "0a" ≠ [] by decide)) (hnew hdraw) (hnew hdraw) hsplit
    hbuild hsubmittable

end Example

end KnishIO
