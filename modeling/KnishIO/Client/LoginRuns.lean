import KnishIO.Client.MetaRuns

open ByteString

namespace KnishIO

section Built

variable {H : Shake256} {secret : Secret} {source remainder : Wallet} {encrypt : Bool}

/-- The unsigned molecule of a login. -/
def authorizationMolecule (cellSlug : ByteString) (clock : Nat → Int64) (source remainder : Wallet) (encrypt : Bool) : Molecule :=
  frontMolecule "U" cellSlug clock source remainder (Molecule.authorizationMeta source encrypt) [] []

theorem run_initAuthorization (cellSlug : ByteString) (clock : Nat → Int64) :
    ((Molecule.Builder.initAuthorization source encrypt).run clock).run
        (Molecule.withWallets cellSlug (clock 0) source remainder) =
      .ok ((authorizationMolecule cellSlug clock source remainder encrypt).atoms,
        authorizationMolecule cellSlug clock source remainder encrypt) := by
  rw [Act.run_eq_ok]
  rfl

theorem utf8_authorizationMeta (source : Wallet) (encrypt : Bool) :
    ∀ m ∈ Molecule.authorizationMeta source encrypt, Utf8.valid m.1 = true ∧ Utf8.valid m.2 = true := by
  intro m hm
  have hbase64 : Utf8.valid (toBase64 source.mlkemPublicKey) = true :=
    Utf8.valid_of_ascii fun c hc => ascii_of_mem_toBase64 hc
  simp only [Molecule.authorizationMeta, List.mem_append, List.mem_singleton] at hm
  obtain (rfl | hm) | rfl := hm
  · cases encrypt
    · exact ⟨rfl, rfl⟩
    · exact ⟨rfl, rfl⟩
  · split at hm
    · cases hm
    · simp only [List.mem_cons, List.not_mem_nil, or_false] at hm
      obtain rfl | rfl := hm
      · exact ⟨rfl, hbase64⟩
      · exact ⟨rfl, hbase64⟩
  · exact ⟨rfl, rfl⟩

theorem submittable_authorizationMolecule {token p q : ByteString} {v v' : Int} (hsource : source.Made H secret.bytes token p v)
    (hremainder : remainder.Made H secret.bytes (ascii "USER") q v') (htoken : Utf8.valid token = true)
    (hp : Utf8.valid p = true) (hq : Utf8.valid q = true) {cellSlug : ByteString} (hcellSlug : Utf8.valid cellSlug = true)
    (clock : Nat → Int64) (encrypt : Bool) :
    Submittable H secret (authorizationMolecule cellSlug clock source remainder encrypt) :=
  submittable_frontMolecule hsource hremainder htoken hp hq hcellSlug rfl rfl rfl (utf8_authorizationMeta source encrypt) clock
    fun _ hhash => (Molecule.verifyTokenIsotopeV_rehashed (List.cons_ne_nil _ _) rfl hhash).trans rfl

end Built

theorem utf8_randomHex (hex : RandomHex) : Utf8.valid hex.bytes = true :=
  Utf8.valid_of_ascii fun c hc => Molecule.isHexLower_ascii (hex.hex c hc)

theorem RandomHex.ne_nil (hex : RandomHex) : hex.bytes ≠ [] :=
  List.ne_nil_of_length_pos (hex.length_eq ▸ by norm_num)

/-- A client whose wallets can be made and whose molecules can be written. -/
structure World.Equipped {E : Type} (S : Setting E) (w : World E) : Prop where
  kem : ∀ set seed, ∃ publicKey, S.kem.publicKey set seed = some publicKey
  parameterSet : w.client.config.mlKemParameterSet = 768 ∨ w.client.config.mlKemParameterSet = 1024

section Sent

variable {E : Type} {S : Setting E} {w : World E} {secret : Secret} {cellSlug : ByteString} {encrypt : Bool} {source : Wallet}

/-- The version of a successor is a version. -/
theorem Config.successorOtsVersion_checked (config : Config) {version : Int} (h : version = 1 ∨ version = 2) :
    config.successorOtsVersion version = 1 ∨ config.successorOtsVersion version = 2 := by
  have := config.otsVersion_checked
  rw [Config.successorOtsVersion]
  omega

/-- From a wallet of the secret, an authorization molecule is always sent. -/
theorem proposeAuthorization_sends (encrypt : Bool) (hw : w.Equipped S) {token p : ByteString} {v : Int} (hv : v = 1 ∨ v = 2)
    (hsource : source.Made S.hash secret.bytes token p v) (htoken : Utf8.valid token = true) (hp : Utf8.valid p = true)
    (hcellSlug : Utf8.valid cellSlug = true) :
    ∃ u m, AuthorizationSigned S w u secret cellSlug encrypt source m ∧ Molecule.check S.hash m = .ok () ∧
      (proposeAuthorization S secret cellSlug encrypt source).exec w =
        ((u.verdict S m).proposal S.floatText "Authorization request", u.authorized S secret source encrypt m) := by
  have hversion := w.client.config.successorOtsVersion_checked (hsource.otsVersion_eq ▸ hv)
  obtain ⟨remainder, hremainder⟩ := Wallet.new_exists (H := S.hash) hw.kem (ascii "USER") secret.nonempty
    (S.draw w.drawn).ne_nil hw.parameterSet hversion
  have hsubmittable : Submittable S.hash secret
      (authorizationMolecule cellSlug (S.clock (w.drawn + 1)) source remainder encrypt) :=
    submittable_authorizationMolecule hsource (Wallet.made_new hremainder) htoken hp (utf8_randomHex _) hcellSlug _ encrypt
  obtain ⟨front, rest, hatoms⟩ := List.exists_cons_of_ne_nil hsubmittable.nonempty
  obtain ⟨position, m, hsign, hcheck, hutf8, hwallet, -⟩ := Molecule.sign_accepted hatoms hsubmittable.unsigned
    (hsubmittable.address front rest hatoms) hsubmittable.continuId hsubmittable.conserved hsubmittable.utf8 false true
  have hbalance : m.ReadableBalance := fun wallet h => hsubmittable.balance wallet (hwallet ▸ h)
  obtain ⟨json, htext, -, -⟩ := Molecule.toJson_ok S.floatText hbalance hutf8
  obtain ⟨u, hsigned, hexec⟩ := exec_proposeAuthorization (exec_newWallet_drawn hremainder)
    (exec_assemble (run_initAuthorization _ _)) (Act.run_eq_ok.mpr hsign) htext
  exact ⟨u, m, hsigned, hcheck, hexec⟩

/-- A login from a fresh AUTH wallet always sends its molecule. -/
theorem authorizeFromFreshAuthWallet_sends (secret : Secret) (encrypt : Bool) (hw : w.Equipped S)
    (hcellSlug : Utf8.valid cellSlug = true) :
    ∃ source u m, AuthorizationSigned S { w with drawn := w.drawn + 1 } u secret cellSlug encrypt source m ∧
      Molecule.check S.hash m = .ok () ∧
      (authorizeFromFreshAuthWallet S secret cellSlug encrypt).exec w =
        ((u.verdict S m).proposal S.floatText "Authorization request", u.authorized S secret source encrypt m) := by
  obtain ⟨source, hsource⟩ := Wallet.new_exists (H := S.hash) hw.kem (ascii "AUTH") secret.nonempty
    (S.draw w.drawn).ne_nil hw.parameterSet w.client.config.otsVersion_checked
  obtain ⟨u, m, hsigned, hcheck, hexec⟩ := proposeAuthorization_sends encrypt (w := { w with drawn := w.drawn + 1 })
    ⟨hw.kem, hw.parameterSet⟩ w.client.config.otsVersion_checked (Wallet.made_new hsource) rfl (utf8_randomHex _) hcellSlug
  refine ⟨source, u, m, hsigned, hcheck, ?_⟩
  rw [authorizeFromFreshAuthWallet, exec_bind_of_ok (Act.exec_get w), exec_bind_of_ok (exec_newWallet_drawn hsource)]
  exact hexec

/-- A login with the client's own secret that is told of no pointer sends a molecule from a fresh AUTH wallet. -/
theorem requestAuthToken_sends {bundle : ByteString} (slug : Option ByteString) (encrypt : Bool) (reply : Reply)
    (hw : w.Equipped S)
    (hsecret : w.client.secret = some secret) (hbundle : w.client.bundle = some bundle)
    (hreply : (S.serve (.continuId bundle) w.env).1 = reply)
    (hanswered : (reply.continuId S.floatText).continuIdFailure = .ok none)
    (hpointer : Response.userPointer (reply.continuId S.floatText).data = none)
    (hcellSlug : Utf8.valid (slug.getD (w.client.config.cellSlug.getD [])) = true) :
    ∃ source u m, u = { w.asked S (.continuId bundle) with drawn := w.drawn + 2 } ∧
      (∃ remainder, SignedBy S.hash (slug.getD (w.client.config.cellSlug.getD [])) source remainder
        (.initAuthorization source encrypt) secret m) ∧
      Molecule.check S.hash m = .ok () ∧
      (requestAuthToken S none slug encrypt).exec w =
        ((u.verdict S m).proposal S.floatText "Authorization request", u.authorized S secret source encrypt m) := by
  obtain ⟨source, u, m, hsigned, hcheck, hexec⟩ := authorizeFromFreshAuthWallet_sends secret encrypt
    (w := w.asked S (.continuId bundle)) ⟨hw.kem, hw.parameterSet⟩ hcellSlug
  obtain ⟨remainder, -, hmolecule⟩ := hsigned.signed
  have huse : (useSecret S none).exec w = (.ok (), w) := by
    rw [useSecret, exec_bind_of_ok (Act.exec_get w)]
    exact exec_require_pos (by rw [hsecret]; rfl)
  refine ⟨source, u, m, hsigned.drawn, ⟨remainder, hmolecule⟩, hcheck, ?_⟩
  rw [requestAuthToken, exec_bind_of_ok huse, exec_bind_of_ok (exec_secretValue hsecret), exec_bind_of_ok (Act.exec_get w),
    exec_bind_of_ok (exec_getBundle hbundle), exec_bind_of_ok (queryContinuId_exec S w bundle), hreply,
    exec_bind_of_ok (by rw [Act.exec_ofExcept, hanswered])]
  simp only [hpointer, login]
  exact hexec

end Sent

end KnishIO
