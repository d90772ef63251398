import KnishIO.Molecule.Json
import KnishIO.Molecule.Isotope

open ByteString

namespace KnishIO

/-- Position and address of a wallet, as an atom carries them. -/
abbrev Place := ByteString × ByteString

def Atom.place (atom : Atom) : Place := (atom.position, atom.walletAddress)

def Wallet.place (wallet : Wallet) : Place := (wallet.position, wallet.address)

/-- An atom of the constructor on UTF-8 strings. -/
theorem Atom.wireUtf8_new (createdAt : Int64) (index : Int32) {position walletAddress : ByteString} {isotope : String}
    {token value batchId metaType metaId : ByteString} {metas : Metas} (hposition : Utf8.valid position = true)
    (haddress : Utf8.valid walletAddress = true) (hisotope : Utf8.valid (ascii isotope) = true)
    (htoken : Utf8.valid token = true) (hvalue : Utf8.valid value = true) (hbatchId : Utf8.valid batchId = true)
    (hmetaType : Utf8.valid metaType = true) (hmetaId : Utf8.valid metaId = true)
    (hmetas : ∀ m ∈ metas, Utf8.valid m.1 = true ∧ Utf8.valid m.2 = true) :
    (Atom.new createdAt position walletAddress isotope token value batchId metaType metaId metas index).WireUtf8 :=
  ⟨⟨hposition, haddress, hisotope, htoken, hvalue, hbatchId, hmetaType, hmetaId, hmetas, nofun, nofun⟩, rfl⟩

namespace Molecule

section Writes

variable {α β : Type} {wallet : Option Wallet} {ps qs : List Place}

/-- On a molecule with a given remainder wallet, a computation that returns has appended atoms at these
places, as the constructor makes them, and has changed nothing else but the hash. -/
def Writes (wallet : Option Wallet) (ps : List Place) (x : Act Exception Molecule α) : Prop :=
  ∀ m a m', m.remainderWallet = wallet → x.exec m = (.ok a, m') →
    ∃ atoms, m' = { m with molecularHash := m'.molecularHash, atoms := m.atoms ++ atoms } ∧
      atoms.map Atom.place = ps ∧ ∀ atom ∈ atoms, atom.Plain ∧ atom.isotope ≠ []

theorem Writes.pure (a : α) : Writes wallet [] (Pure.pure a : Act Exception Molecule α) := by
  intro m b m' _ h
  obtain ⟨_, rfl⟩ := Prod.mk.inj h
  exact ⟨[], by simp, rfl, by simp⟩

theorem Writes.throw (e : Exception) : Writes wallet ps (throw e : Act Exception Molecule α) := by
  intro m a m' _ h
  cases h

theorem Writes.ofExcept (r : Throws α) : Writes wallet [] (Act.ofExcept r : Act Exception Molecule α) := by
  intro m a m' _ h
  obtain ⟨_, rfl⟩ := Prod.mk.inj h
  exact ⟨[], by simp, rfl, by simp⟩

theorem Writes.clearHash : Writes wallet [] clearHash := by
  intro m a m' _ h
  obtain ⟨_, rfl⟩ := Prod.mk.inj h
  exact ⟨[], by simp, rfl, by simp⟩

theorem Writes.builtAtoms : Writes wallet [] builtAtoms := by
  intro m a m' _ h
  obtain ⟨_, rfl⟩ := Prod.mk.inj h
  exact ⟨[], by simp, rfl, by simp⟩

theorem Writes.bind {x : Act Exception Molecule α} {f : α → Act Exception Molecule β} (hx : Writes wallet ps x)
    (hf : ∀ a, Writes wallet qs (f a)) : Writes wallet (ps ++ qs) (x >>= f) := by
  intro m b m' hwallet h
  rw [Act.exec_bind] at h
  rcases hexec : x.exec m with ⟨r, t⟩
  rw [hexec] at h
  cases r with
  | error e => cases h
  | ok a =>
    obtain ⟨first, ht, hfirst, hfirstPlain⟩ := hx m a t hwallet hexec
    have hwallet' : t.remainderWallet = wallet := by
      rw [ht]
      exact hwallet
    obtain ⟨second, hm', hsecond, hsecondPlain⟩ := hf a t b m' hwallet' h
    refine ⟨first ++ second, ?_, by rw [List.map_append, hfirst, hsecond], ?_⟩
    · rw [hm', ht]
      simp
    · intro atom hatom
      obtain h | h := List.mem_append.mp hatom
      · exact hfirstPlain atom h
      · exact hsecondPlain atom h

/-- A step that appends nothing. -/
theorem Writes.step {x : Act Exception Molecule α} {f : α → Act Exception Molecule β} (hx : Writes wallet [] x)
    (hf : ∀ a, Writes wallet ps (f a)) : Writes wallet ps (x >>= f) := hx.bind hf

theorem Writes.pushAtom (createdAt : Int64) (place : Place) {isotope : String} (hisotope : ascii isotope ≠ [])
    (token value batchId metaType metaId : ByteString) (metas : Metas) (index : Int32) :
    Writes wallet [place]
      (pushAtom (Atom.new createdAt place.1 place.2 isotope token value batchId metaType metaId metas index)) := by
  intro m a m' _ h
  obtain ⟨_, rfl⟩ := Prod.mk.inj h
  refine ⟨[_], rfl, rfl, ?_⟩
  simp only [List.forall_mem_cons, List.not_mem_nil, false_implies, implies_true, and_true]
  exact ⟨⟨rfl, rfl, rfl, rfl, rfl⟩, hisotope⟩

/-- An atom appended before the rest. -/
theorem Writes.push {f : PUnit → Act Exception Molecule β} (createdAt : Int64) (place : Place) {isotope : String}
    (hisotope : ascii isotope ≠ []) (token value batchId metaType metaId : ByteString) (metas : Metas) (index : Int32)
    (hf : ∀ a, Writes wallet ps (f a)) :
    Writes wallet (place :: ps)
      (Molecule.pushAtom (Atom.new createdAt place.1 place.2 isotope token value batchId metaType metaId metas index) >>= f) :=
  (Writes.pushAtom createdAt place hisotope token value batchId metaType metaId metas index).bind hf

theorem Writes.guard {c : Prop} [Decidable c] {e : Exception} {x : Act Exception Molecule α} (hx : Writes wallet ps x) :
    Writes wallet ps (if c then MonadExcept.throw e else x) := by
  split
  · exact Writes.throw e
  · exact hx

end Writes

section Builders

variable (clock : Nat → Int64) (wallet : Option Wallet)

/-- The ContinuID atom stands at the remainder wallet's place, or at the signing wallet's without one. -/
theorem writes_addContinuIdAtom (sourceWallet : Wallet) (index : Nat) :
    Writes wallet [(wallet.getD sourceWallet).place] (addContinuIdAtom clock sourceWallet index) := by
  intro m a m' hwallet h
  unfold addContinuIdAtom at h
  cases hw : wallet with
  | none =>
    simp only [Act.exec_bind, Act.exec_get, Act.andThen_ok, hwallet, hw] at h
    exact Writes.pushAtom (clock index) sourceWallet.place (by decide) _ _ _ _ _ _ _ m a m' (hwallet.trans hw) h
  | some remainderWallet =>
    simp only [Act.exec_bind, Act.exec_get, Act.andThen_ok, hwallet, hw] at h
    exact Writes.pushAtom (clock index) remainderWallet.place (by decide) _ _ _ _ _ _ _ m a m' (hwallet.trans hw) h

theorem writes_initValue (sourceWallet recipientWallet remainderWallet : Wallet) (value : ByteString) :
    Writes wallet [sourceWallet.place, recipientWallet.place, remainderWallet.place]
      (initValue clock sourceWallet recipientWallet remainderWallet value) := by
  refine .step .clearHash fun _ => .step (.ofExcept _) fun _ => ?_
  refine .push (clock 0) sourceWallet.place (by decide) _ _ _ _ _ _ _ fun _ => .step (.ofExcept _) fun _ => ?_
  refine .push (clock 1) recipientWallet.place (by decide) _ _ _ _ _ _ _ fun _ => .step (.ofExcept _) fun _ => ?_
  refine .step (.ofExcept _) fun _ => .step (.ofExcept _) fun _ => .step (.ofExcept _) fun _ => ?_
  exact .push (clock 2) remainderWallet.place (by decide) _ _ _ _ _ _ _ fun _ => .builtAtoms

/-- The loop appends one atom for each recipient. -/
theorem writes_creditRecipients (token : Wallet → ByteString) (recipientMeta : Wallet → Throws Metas) (index : Nat)
    (total : Int) (recipientWallets : List Wallet) (amounts : List ByteString) :
    Writes wallet (recipientWallets.map Wallet.place)
      (creditRecipients clock token recipientMeta index total recipientWallets amounts) := by
  induction recipientWallets generalizing index total amounts with
  | nil => exact .pure _
  | cons recipientWallet recipientWallets ih =>
    cases amounts with
    | nil => exact .throw _
    | cons amount amounts =>
      refine .step (.ofExcept _) fun _ => .step (.ofExcept _) fun _ => .step (.ofExcept _) fun _ => ?_
      exact .push (clock index) recipientWallet.place (by decide) _ _ _ _ _ _ _ fun _ => ih _ _ _

theorem writes_initValues (sourceWallet : Wallet) (recipientWallets : List Wallet) (amounts : List ByteString)
    (remainderWallet : Wallet) :
    Writes wallet (sourceWallet.place :: (recipientWallets.map Wallet.place ++ [remainderWallet.place]))
      (initValues clock sourceWallet recipientWallets amounts remainderWallet) := by
  refine .step .clearHash fun _ => .step (.ofExcept _) fun _ => ?_
  refine .push (clock 0) sourceWallet.place (by decide) _ _ _ _ _ _ _ fun _ => ?_
  refine .bind (writes_creditRecipients clock wallet _ _ _ _ _ _) fun (index, _) => ?_
  refine .step (.ofExcept _) fun _ => .step (.ofExcept _) fun _ => .step (.ofExcept _) fun _ => ?_
  exact .push (clock index) remainderWallet.place (by decide) _ _ _ _ _ _ _ fun _ => .builtAtoms

theorem writes_initDepositBuffer (sourceWallet bufferWallet remainderWallet : Wallet) (amount : ByteString)
    (tradeRates : Metas) :
    Writes wallet [sourceWallet.place, bufferWallet.place, remainderWallet.place]
      (initDepositBuffer clock sourceWallet bufferWallet remainderWallet amount tradeRates) := by
  refine .step .clearHash fun _ => ?_
  refine .push (clock 0) sourceWallet.place (by decide) _ _ _ _ _ _ _ fun _ => .step (.ofExcept _) fun _ => ?_
  refine .push (clock 1) bufferWallet.place (by decide) _ _ _ _ _ _ _ fun _ => ?_
  refine .step (.ofExcept _) fun _ => .step (.ofExcept _) fun _ => .step (.ofExcept _) fun _ => ?_
  exact .push (clock 2) remainderWallet.place (by decide) _ _ _ _ _ _ _ fun _ => .builtAtoms

theorem writes_initWithdrawBuffer (sourceWallet : Wallet) (recipientWallets : List Wallet) (amounts : List ByteString)
    (remainderWallet : Wallet) :
    Writes wallet (sourceWallet.place :: (recipientWallets.map Wallet.place ++ [remainderWallet.place]))
      (initWithdrawBuffer clock sourceWallet recipientWallets amounts remainderWallet) := by
  refine .step .clearHash fun _ => .step (.ofExcept _) fun _ => ?_
  refine .push (clock 0) sourceWallet.place (by decide) _ _ _ _ _ _ _ fun _ => ?_
  refine .bind (writes_creditRecipients clock wallet _ _ _ _ _ _) fun (index, _) => ?_
  refine .step (.ofExcept _) fun _ => .step (.ofExcept _) fun _ => ?_
  exact .push (clock index) remainderWallet.place (by decide) _ _ _ _ _ _ _ fun _ => .builtAtoms

/-- The builders with a ContinuID atom append one atom at the signing wallet's place before it. -/
theorem writes_continuId (sourceWallet : Wallet) {isotope : String} (hisotope : ascii isotope ≠ [])
    (token value batchId metaType metaId : ByteString) (metas : Metas) :
    Writes wallet [sourceWallet.place, (wallet.getD sourceWallet).place]
      (do
        pushAtom (Atom.new (clock 0) sourceWallet.position sourceWallet.address isotope token value batchId metaType metaId
          metas 0)
        addContinuIdAtom clock sourceWallet 1
        builtAtoms) := by
  refine .push (clock 0) sourceWallet.place hisotope _ _ _ _ _ _ _ fun _ => ?_
  exact (writes_addContinuIdAtom clock wallet sourceWallet 1).bind fun _ => .builtAtoms

theorem writes_initTokenReplenish (sourceWallet creditedWallet : Wallet) (amount : ByteString) (units : List TokenUnit) :
    Writes wallet [sourceWallet.place, (wallet.getD sourceWallet).place]
      (initTokenReplenish clock sourceWallet creditedWallet amount units) :=
  .step .clearHash fun _ => .step (.ofExcept _) fun _ =>
    writes_continuId clock wallet sourceWallet (by decide) _ _ _ _ _ _

theorem writes_initTokenCreation (sourceWallet recipientWallet : Wallet) (amount : ByteString) (tokenMeta : Metas) :
    Writes wallet [sourceWallet.place, (wallet.getD sourceWallet).place]
      (initTokenCreation clock sourceWallet recipientWallet amount tokenMeta) :=
  .step .clearHash fun _ => writes_continuId clock wallet sourceWallet (by decide) _ _ _ _ _ _

theorem writes_initMeta (sourceWallet : Wallet) (metas : Metas) (metaType metaId : ByteString) :
    Writes wallet [sourceWallet.place, (wallet.getD sourceWallet).place]
      (initMeta clock sourceWallet metas metaType metaId) :=
  .step .clearHash fun _ => writes_continuId clock wallet sourceWallet (by decide) _ _ _ _ _ _

theorem writes_initAuthorization (sourceWallet : Wallet) (encrypt : Bool) :
    Writes wallet [sourceWallet.place, (wallet.getD sourceWallet).place]
      (initAuthorization clock sourceWallet encrypt) :=
  .step .clearHash fun _ => writes_continuId clock wallet sourceWallet (by decide) _ _ _ _ _ _

theorem writes_initWalletCreation (sourceWallet newWallet : Wallet) (atomMeta : Metas) :
    Writes wallet [sourceWallet.place, (wallet.getD sourceWallet).place]
      (initWalletCreation clock sourceWallet newWallet atomMeta) :=
  .step .clearHash fun _ => writes_continuId clock wallet sourceWallet (by decide) _ _ _ _ _ _

theorem writes_initTokenFusion (drawn : ByteString × ByteString) (sourceWallet recipientWallet remainderWallet : Wallet)
    (fusedTokenUnitIds : List ByteString) (newTokenUnitId : ByteString) :
    Writes wallet [sourceWallet.place, ([], []), recipientWallet.place, remainderWallet.place]
      (initTokenFusion clock drawn sourceWallet recipientWallet remainderWallet fusedTokenUnitIds newTokenUnitId) := by
  unfold initTokenFusion
  refine .guard (.step (.ofExcept _) fun _ => .guard ?_)
  refine .step (.ofExcept _) fun _ => .step (.ofExcept _) fun _ => .step .clearHash fun _ => .step (.ofExcept _) fun _ => ?_
  refine .push (clock 0) sourceWallet.place (by decide) _ _ _ _ _ _ _ fun _ => .step (.ofExcept _) fun _ => ?_
  refine .push (clock 1) ([], []) (by decide) _ _ _ _ _ _ _ fun _ => ?_
  refine .push (clock 2) recipientWallet.place (by decide) _ _ _ _ _ _ _ fun _ => ?_
  refine .step (.ofExcept _) fun _ => .step (.ofExcept _) fun _ => ?_
  exact .push (clock 3) remainderWallet.place (by decide) _ _ _ _ _ _ _ fun _ => .builtAtoms

end Builders

namespace Builder

/-- The wallet that signs. -/
def source : Builder → Wallet
  | initValue source _ _ _ => source
  | initValues source _ _ _ => source
  | initDepositBuffer source _ _ _ _ => source
  | initWithdrawBuffer source _ _ _ => source
  | initTokenCreation source _ _ _ => source
  | initTokenReplenish source _ _ _ => source
  | initTokenFusion _ source _ _ _ _ => source
  | initMeta wallet _ _ _ => wallet
  | initWalletCreation source _ _ => source
  | initShadowWalletClaim source _ => source
  | initAuthorization source _ => source

/-- The places of the atoms that a call appends on a molecule with a given remainder wallet. The burn atom
of a fusion has neither position nor address. -/
def places (remainderWallet : Option Wallet) : Builder → List Place
  | initValue source recipient remainder _ => [source.place, recipient.place, remainder.place]
  | initValues source recipients _ remainder => source.place :: (recipients.map Wallet.place ++ [remainder.place])
  | initDepositBuffer source buffer remainder _ _ => [source.place, buffer.place, remainder.place]
  | initWithdrawBuffer source recipients _ remainder => source.place :: (recipients.map Wallet.place ++ [remainder.place])
  | initTokenFusion _ source recipient remainder _ _ => [source.place, ([], []), recipient.place, remainder.place]
  | initTokenCreation source _ _ _ => [source.place, (remainderWallet.getD source).place]
  | initTokenReplenish source _ _ _ => [source.place, (remainderWallet.getD source).place]
  | initMeta source _ _ _ => [source.place, (remainderWallet.getD source).place]
  | initWalletCreation source _ _ => [source.place, (remainderWallet.getD source).place]
  | initShadowWalletClaim source _ => [source.place, (remainderWallet.getD source).place]
  | initAuthorization source _ => [source.place, (remainderWallet.getD source).place]

/-- The builders that add a ContinuID atom. -/
def continuId : Builder → Bool
  | initTokenCreation _ _ _ _ => true
  | initTokenReplenish _ _ _ _ => true
  | initMeta _ _ _ _ => true
  | initWalletCreation _ _ _ => true
  | initShadowWalletClaim _ _ => true
  | initAuthorization _ _ => true
  | _ => false

theorem head?_places (remainderWallet : Option Wallet) (b : Builder) :
    (b.places remainderWallet).head? = some b.source.place := by
  cases b <;> rfl

/-- Every wallet that the call puts on an atom has a position and an address. -/
def addressed (remainderWallet : Option Wallet) (b : Builder) : Bool :=
  (b.places remainderWallet).all fun place => place.1 ≠ [] && place.2 ≠ []

theorem writes_run (clock : Nat → Int64) (wallet : Option Wallet) (b : Builder) :
    Writes wallet (b.places wallet) (b.run clock) := by
  cases b with
  | initValue source recipient remainder amount => exact writes_initValue clock wallet source recipient remainder amount
  | initValues source recipients amounts remainder =>
    exact writes_initValues clock wallet source recipients amounts remainder
  | initDepositBuffer source buffer remainder amount tradeRates =>
    exact writes_initDepositBuffer clock wallet source buffer remainder amount tradeRates
  | initWithdrawBuffer source recipients amounts remainder =>
    exact writes_initWithdrawBuffer clock wallet source recipients amounts remainder
  | initTokenFusion drawn source recipient remainder ids newId =>
    exact writes_initTokenFusion clock wallet drawn source recipient remainder ids newId
  | initTokenReplenish source credited amount units =>
    exact writes_initTokenReplenish clock wallet source credited amount units
  | initTokenCreation source recipient amount tokenMeta =>
    exact writes_initTokenCreation clock wallet source recipient amount tokenMeta
  | initMeta source metas metaType metaId => exact writes_initMeta clock wallet source metas metaType metaId
  | initWalletCreation source newWallet atomMeta => exact writes_initWalletCreation clock wallet source newWallet atomMeta
  | initShadowWalletClaim source newWallet => exact writes_initWalletCreation clock wallet source newWallet _
  | initAuthorization source encrypt => exact writes_initAuthorization clock wallet source encrypt

end Builder

/-- Written and read again, the molecule is the same on the wire fields and still verifies. -/
def RoundTrips (F : Json.FloatText) (H : Shake256) (now : Int64) (m : Molecule) : Prop :=
  ∃ text m', m.toJson = .ok text ∧ jsonToObject F now text = .ok m' ∧
    m'.molecularHash = m.molecularHash ∧ m'.cellSlug = m.cellSlug ∧ m'.bundle = m.bundle ∧ m'.status = m.status ∧
    m'.createdAt = m.createdAt ∧ m'.atoms = m.atoms ∧ verify H m' = .ok true

theorem verify_of_check {H : Shake256} {m : Molecule} (h : check H m = .ok ()) : verify H m = .ok true := by
  obtain ⟨_, _, hhash, hots, htoken⟩ := check_ok_iff.mp h
  simp [verify, hhash, hots, htoken, Except.map]

theorem verify_congr (H : Shake256) {m m' : Molecule} (hhash : m'.molecularHash = m.molecularHash)
    (hatoms : m'.atoms = m.atoms) : verify H m' = verify H m := by
  have hcross : verifyCrossIsotopeConservation m' = verifyCrossIsotopeConservation m := by
    simp only [verifyCrossIsotopeConservation, hatoms]
  simp only [verify, verifyMolecularHash, tokenValid, verifyTokenIsotopeV, verifyOts, carriedOts, hhash, hatoms, hcross]

/-- The check reads the hash and the atoms only. -/
theorem check_congr {H : Shake256} {m m' : Molecule} (hhash : m'.molecularHash = m.molecularHash) (hatoms : m'.atoms = m.atoms)
    (h : check H m = .ok ()) : check H m' = .ok () := by
  have hcross : verifyCrossIsotopeConservation m' = verifyCrossIsotopeConservation m := by
    simp only [verifyCrossIsotopeConservation, hatoms]
  simp only [check_ok_iff, verifyContinuId, verifyMolecularHash, tokenValid, verifyTokenIsotopeV, verifyOts, carriedOts, hhash,
    hatoms, hcross] at h ⊢
  exact h

/-- An accepted molecule survives the round trip exactly when its atoms are filled. -/
theorem roundTrips_iff_filled (F : Json.FloatText) (H : Shake256) (now : Int64) {m : Molecule}
    (hcheck : check H m = .ok ()) (hbalance : m.ReadableBalance) (hutf8 : m.WireUtf8) (hplain : ∀ a ∈ m.atoms, a.Plain) :
    RoundTrips F H now m ↔ m.atoms.all filled = true := by
  obtain ⟨text, htext, hread⟩ := jsonToObject_toJson F now hbalance hutf8 hplain
  constructor
  · rintro ⟨text', m', htext', hread', _⟩
    obtain rfl : text = text' := Except.ok.inj (htext.symm.trans htext')
    by_contra hnot
    rw [hread, if_neg hnot] at hread'
    cases hread'
  · intro hall
    rw [if_pos hall] at hread
    refine ⟨text, _, htext, hread, rfl, rfl, rfl, rfl, rfl, rfl, ?_⟩
    exact (verify_congr H rfl rfl).trans (verify_of_check hcheck)

/-- Signing leaves everything but the fragments of the atoms. -/
theorem signed_atoms {m : Molecule} (h : ∀ a ∈ m.atoms, a.Plain ∧ a.isotope ≠ []) (H : Shake256)
    (secret hash signature : ByteString) (anonymous : Bool) :
    (∀ a ∈ (m.signed H secret anonymous hash signature).atoms, a.Plain ∧ a.isotope ≠ []) ∧
      (m.signed H secret anonymous hash signature).atoms.map Atom.place = m.atoms.map Atom.place := by
  constructor
  · intro a ha
    obtain ⟨b, hb, rfl | ⟨fragment, _, rfl⟩⟩ := mem_assignFragments ha
    · exact h a hb
    · obtain ⟨⟨hnull, hvalue, hbatchId, hmetaType, hmetaId⟩, hisotope⟩ := h b hb
      exact ⟨⟨hnull, hvalue, hbatchId, hmetaType, hmetaId⟩, hisotope⟩
  · have hplaces := congrArg (List.map Atom.place) (assignFragments_unsigned m.atoms (m.fragmentsFor signature))
    rwa [List.map_map, List.map_map] at hplaces

/-- A molecule that a builder made and that the client signed and checked survives the round trip through
JSON exactly when no wallet without position or address was put on an atom. -/
theorem build_roundTrips_iff (F : Json.FloatText) (H : Shake256) (now : Int64) (clock : Nat → Int64) (b : Builder)
    (secret position : ByteString) (anonymous compressed : Bool) (fresh built m : Molecule) (atoms : List Atom)
    (hfresh : fresh.atoms = []) (hbuild : (b.run clock).exec fresh = (.ok atoms, built))
    (hsign : (sign H secret anonymous compressed).exec built = (.ok position, m)) (hcheck : check H m = .ok ())
    (hbalance : m.ReadableBalance) (hutf8 : m.WireUtf8) :
    RoundTrips F H now m ↔ b.addressed fresh.remainderWallet = true := by
  obtain ⟨new, hbuilt, hplaces, hnew⟩ := b.writes_run clock fresh.remainderWallet fresh atoms built rfl hbuild
  have hatoms : built.atoms = new := by rw [hbuilt, hfresh, List.nil_append]
  have hne : built.atoms ≠ [] := by
    intro hempty
    simp [sign, hempty] at hsign
  obtain ⟨front, rest, hsplit⟩ := List.exists_cons_of_ne_nil hne
  obtain ⟨hash, key, signature, _, _, _, rfl⟩ := sign_ok_inv hsplit hsign
  have hplain : ∀ a ∈ built.atoms, a.Plain ∧ a.isotope ≠ [] := by rwa [hatoms]
  obtain ⟨hsigned, hsignedPlaces⟩ := signed_atoms hplain H secret hash signature anonymous
  rw [roundTrips_iff_filled F H now hcheck hbalance hutf8 fun a ha => (hsigned a ha).1, Builder.addressed, ← hplaces,
    ← hatoms, ← hsignedPlaces, List.all_map, List.all_eq_true, List.all_eq_true]
  refine forall₂_congr fun a ha => ?_
  have hisotope := (hsigned a ha).2
  simp only [filled, Function.comp_apply, Bool.and_eq_true, decide_eq_true_eq]
  exact ⟨fun h => h.1, fun h => ⟨h, hisotope⟩⟩

section Example

theorem isHexLower_ascii {c : UInt8} (hc : isHexLower c = true) : c ≤ 0x7F :=
  forall_byte_of_fin (P := fun c => isHexLower c = true → c ≤ 0x7F) (by decide +kernel) c hc

theorem isBase17_ascii {c : UInt8} (hc : WalletCrypto.isBase17 c = true) : c ≤ 0x7F :=
  forall_byte_of_fin (P := fun c => WalletCrypto.isBase17 c = true → c ≤ 0x7F) (by decide +kernel) c hc

theorem oneTimeSignature_ascii {H : Shake256} {secret token position key hash signature : ByteString} {v : Int}
    {compressed : Bool} (hkey : Wallet.generateWalletKey H secret token position v = .ok key)
    (hsig : oneTimeSignature H key hash compressed = .ok signature) : ∀ c ∈ signature, c ≤ 0x7F := by
  intro c hc
  cases compressed with
  | true =>
    simp only [oneTimeSignature, hexToBase64, ↓reduceIte] at hsig
    cases hdecode : fromHexString (signChunks H (normalize (enumerate hash)) (chunkSubstr key 128)).flatten with
    | error e => simp [hdecode, Except.map] at hsig
    | ok data =>
      simp only [hdecode, Except.map, Except.ok.injEq] at hsig
      exact ascii_of_mem_toBase64 (hsig ▸ hc)
  | false =>
    simp only [oneTimeSignature, Bool.false_eq_true, ↓reduceIte, Except.ok.injEq] at hsig
    obtain ⟨x, hx, hcx⟩ := List.mem_flatten.mp (hsig ▸ hc)
    exact isHexLower_ascii ((mem_signChunks (keyChunks_of_key hkey) hx).2 c hcx)

/-- Signing writes ASCII only. -/
theorem wireUtf8_signed {H : Shake256} {m : Molecule} (h : m.WireUtf8) {secret hash signature : ByteString}
    (hhash : WalletCrypto.isSignableHash hash = true) (hsig : ∀ c ∈ signature, c ≤ 0x7F) (anonymous : Bool) :
    (m.signed H secret anonymous hash signature).WireUtf8 := by
  have hbase17 : ∀ c ∈ hash, c ≤ 0x7F := by
    simp only [WalletCrypto.isSignableHash, Bool.and_eq_true, List.all_eq_true] at hhash
    exact fun c hc => isBase17_ascii (hhash.2 c hc)
  refine ⟨Utf8.valid_of_ascii hbase17, h.cellSlug, ?_, h.status, ?_, h.wallets⟩
  · cases anonymous with
    | true => exact h.bundle
    | false => exact Utf8.valid_of_ascii fun c hc => isHexLower_ascii (isHexLower_shake256Hex hc)
  · intro a ha
    obtain ⟨b, hb, rfl | ⟨fragment, hfragment, rfl⟩⟩ := mem_assignFragments ha
    · exact h.atoms a hb
    · have hfields := (h.atoms b hb).toValidUtf8
      have hots : Utf8.valid fragment = true :=
        Utf8.valid_of_ascii fun c hc => hsig c (mem_of_mem_blocks hfragment hc)
      exact ⟨⟨hfields.position, hfields.walletAddress, hfields.isotope, hfields.token, hfields.value, hfields.batchId,
        hfields.metaType, hfields.metaId, hfields.metas, hfields.nullMetas, hfields.version⟩, hots⟩

/-- The value checks do not read the fragments. -/
theorem verifyTokenIsotopeV_unsigned {m m' : Molecule} (hatoms : m'.atoms.map Atom.unsigned = m.atoms.map Atom.unsigned)
    (hhash : m'.molecularHash = m.molecularHash) : verifyTokenIsotopeV m' = verifyTokenIsotopeV m := by
  apply verifyTokenIsotopeV_congr _ hhash
  rw [← List.forall₂_eq_eq_eq, List.forall₂_map_left_iff, List.forall₂_map_right_iff] at hatoms
  refine hatoms.imp fun a b h => ?_
  have hisotope : a.unsigned.isotope = b.unsigned.isotope := congrArg Atom.isotope h
  have htoken : a.unsigned.token = b.unsigned.token := congrArg Atom.token h
  have hvalue : a.unsigned.value = b.unsigned.value := congrArg Atom.value h
  have hmetaType : a.unsigned.metaType = b.unsigned.metaType := congrArg Atom.metaType h
  have hmetaId : a.unsigned.metaId = b.unsigned.metaId := congrArg Atom.metaId h
  exact ⟨hisotope, htoken, hvalue, hmetaType, hmetaId⟩

theorem verifyContinuId_unsigned {m m' : Molecule} (hatoms : m'.atoms.map Atom.unsigned = m.atoms.map Atom.unsigned) :
    verifyContinuId m' = verifyContinuId m := by
  have hany : (m'.atoms.any fun a => a.isotope = ascii "I") = m.atoms.any fun a => a.isotope = ascii "I" := by
    have hsame := congrArg (List.any · fun a => a.isotope = ascii "I") hatoms
    simp only [List.any_map] at hsame
    exact hsame
  unfold verifyContinuId
  rw [hany]
  cases hm' : m'.atoms with
  | nil =>
    rw [hm'] at hatoms
    rw [List.map_eq_nil_iff.mp hatoms.symm]
  | cons front' rest' =>
    rw [hm', List.map_cons] at hatoms
    obtain ⟨front, rest, hm, hfront, -⟩ := List.map_eq_cons_iff.mp hatoms.symm
    have htoken : front.unsigned.token = front'.unsigned.token := congrArg Atom.token hfront
    simp only [Atom.unsigned] at htoken
    rw [hm]
    simp only [htoken]

theorem verifyContinuId_of_token {m : Molecule} {front : Atom} {rest : List Atom} (hatoms : m.atoms = front :: rest)
    (htoken : front.token ≠ ascii "USER") : verifyContinuId m = true := by
  rw [verifyContinuId, hatoms]
  exact if_pos htoken

/-- Without B and F atoms the check sums up the tokens. -/
theorem verifyTokenIsotopeV_rehashed {m : Molecule} (hne : m.atoms ≠ [])
    (hcross : (m.atoms.any fun a => isB a || isF a) = false) {hash : ByteString} (hhash : hash ≠ []) :
    verifyTokenIsotopeV { m with molecularHash := hash } = tokenSums [] m.atoms := by
  simp [verifyTokenIsotopeV, hne, hhash, hcross]

/-- A molecule in order that the owner of its first atom signed passes the check. -/
theorem check_signed {H : Shake256} {secret : ByteString} {m : Molecule} {front : Atom} {rest : List Atom}
    (hatoms : m.atoms = front :: rest) (hempty : ∀ a ∈ m.atoms, a.otsFragment = []) {hash key signature : ByteString}
    {compressed : Bool} (hhash : Atom.hashAtomsBase17 H m.atoms = .ok hash)
    (hkey : Wallet.generateWalletKey H secret front.token front.position m.signingOtsVersion = .ok key)
    (haddress : Wallet.generateWalletAddress H key = front.walletAddress)
    (hsig : oneTimeSignature H key hash compressed = .ok signature) (hcontinuId : verifyContinuId m = true)
    (hconserved : ∀ hash, hash ≠ [] → verifyTokenIsotopeV { m with molecularHash := hash } = .ok true) (anonymous : Bool) :
    check H (m.signed H secret anonymous hash signature) = .ok () := by
  have hnil : m.atoms ≠ [] := by simp [hatoms]
  have hsame := assignFragments_unsigned m.atoms (m.fragmentsFor signature)
  refine check_ok_iff.mpr ⟨?_, ?_, verifyMolecularHash_signed hnil hhash secret signature anonymous,
    verifyOts_signed hatoms hempty hhash hkey haddress hsig anonymous, ?_⟩
  · obtain ⟨fragment, rest', hfront⟩ := exists_front_signed hatoms H secret anonymous hash signature
    rw [hfront]
    exact List.cons_ne_nil _ _
  · exact (verifyContinuId_unsigned hsame).trans hcontinuId
  · have hne : hash ≠ [] := by
      rintro rfl
      cases hashAtomsBase17_signable hhash
    have hvalue : verifyTokenIsotopeV (m.signed H secret anonymous hash signature) =
        verifyTokenIsotopeV { m with molecularHash := hash } := verifyTokenIsotopeV_unsigned hsame rfl
    rw [tokenValid, hvalue, hconserved hash hne]

/-- A molecule in order can be signed by the owner of its first atom, and then passes the check. -/
theorem sign_accepted {H : Shake256} {secret : ByteString} {m : Molecule} {front : Atom} {rest : List Atom}
    (hatoms : m.atoms = front :: rest) (hempty : ∀ a ∈ m.atoms, a.otsFragment = [])
    (haddress : Wallet.addressAt H secret front.token front.position m.signingOtsVersion = .ok front.walletAddress)
    (hcontinuId : verifyContinuId m = true)
    (hconserved : ∀ hash, hash ≠ [] → verifyTokenIsotopeV { m with molecularHash := hash } = .ok true)
    (hutf8 : m.WireUtf8) (anonymous compressed : Bool) :
    ∃ position m', (sign H secret anonymous compressed).exec m = (.ok position, m') ∧ check H m' = .ok () ∧
      m'.WireUtf8 ∧ m'.sourceWallet = m.sourceWallet ∧ m'.atoms.map Atom.unsigned = m.atoms.map Atom.unsigned := by
  obtain ⟨hash, key, signature, hhash, hkey, haddr, hsig⟩ :=
    sign_ready front haddress (fun _ a ha => (hutf8.atoms a ha).toValidUtf8) compressed
  have hsignable := hashAtomsBase17_signable hhash
  exact ⟨_, _, sign_exec hatoms anonymous hhash hkey hsig,
    check_signed hatoms hempty hhash hkey haddr hsig hcontinuId hconserved anonymous,
    wireUtf8_signed hutf8 hsignable (oneTimeSignature_ascii hkey hsig) anonymous, rfl,
    assignFragments_unsigned m.atoms (m.fragmentsFor signature)⟩

/-- A signed molecule of plain atoms with places is parsed from what it is written as. -/
theorem signed_parsed (F : Json.FloatText) (now : Int64) {H : Shake256} {secret position : ByteString} {m m' : Molecule}
    {front : Atom} {rest : List Atom} {anonymous compressed : Bool} (hatoms : m.atoms = front :: rest)
    (hplain : ∀ a ∈ m.atoms, a.Plain ∧ a.isotope ≠ [])
    (haddressed : ∀ place ∈ m.atoms.map Atom.place, place.1 ≠ [] ∧ place.2 ≠ [])
    (hsign : (sign H secret anonymous compressed).exec m = (.ok position, m')) (hcheck : check H m' = .ok ())
    (hbalance : m'.ReadableBalance) (hutf8 : m'.WireUtf8) :
    ∃ text parsed, jsonToObject F now text = .ok parsed ∧
      parsed.atoms.map Atom.unsigned = m.atoms.map Atom.unsigned ∧ check H parsed = .ok () ∧ parsed.WireUtf8 ∧
      ∀ a ∈ parsed.atoms, a.Plain := by
  obtain ⟨hash, key, signature, -, -, -, rfl⟩ := sign_ok_inv hatoms hsign
  obtain ⟨hplain', hplaces⟩ := signed_atoms hplain H secret hash signature anonymous
  rw [← hplaces] at haddressed
  obtain ⟨text, -, hread⟩ := jsonToObject_toJson F now hbalance hutf8 fun a ha => (hplain' a ha).1
  rw [if_pos (List.all_eq_true.mpr fun a ha => ?_)] at hread
  · exact ⟨text, _, hread, assignFragments_unsigned m.atoms (m.fragmentsFor signature), check_congr rfl rfl hcheck,
      ⟨hutf8.molecularHash, hutf8.cellSlug, hutf8.bundle, hutf8.status, hutf8.atoms, nofun⟩,
      fun a ha => (hplain' a ha).1⟩
  · obtain ⟨hposition, haddress⟩ := haddressed _ (List.mem_map_of_mem ha)
    have hpos : a.position ≠ [] := hposition
    have haddr : a.walletAddress ≠ [] := haddress
    simp [filled, hpos, haddr, (hplain' a ha).2]

/-- A wallet of seven tokens at the address its secret derives. -/
def payer : Wallet where
  position := ascii "0a"
  token := ascii "T"
  key := []
  address := (Wallet.addressAt (.constant 0) (ascii "5ec7e7") (ascii "T") (ascii "0a") 1).toOption.getD []
  balance := ascii "7"
  bundle := ascii "0c"
  mlkemPublicKey := []
  mlkemParameterSet := 1024
  otsVersion := 1

/-- A recipient that is known by its bundle only. -/
def shadow : Wallet := { payer with position := [], address := [], balance := [], bundle := ascii "0d" }

def payee : Wallet := { shadow with position := ascii "0e", address := ascii "0f" }

def unbuilt : Molecule := { createdAt := 0, sourceWallet := some payer }

/-- The molecule of a transfer of five tokens. -/
def transfer (recipient : Wallet) : Molecule :=
  { unbuilt with atoms := [
      Atom.new 0 payer.position payer.address "V" (ascii "T") (ascii "-7") [] [] [] [] 0,
      Atom.new 0 recipient.position recipient.address "V" (ascii "T") (ascii "5") [] (ascii "walletBundle")
        (ascii "0d") [] 1,
      Atom.new 0 payer.position payer.address "V" (ascii "T") (ascii "2") [] (ascii "walletBundle") (ascii "0c") [] 2] }

theorem plain_transfer (recipient : Wallet) : ∀ a ∈ (transfer recipient).atoms, a.Plain ∧ a.isotope ≠ [] := by
  simp only [transfer, List.forall_mem_cons, List.not_mem_nil, false_implies, implies_true, and_true]
  exact ⟨⟨⟨rfl, rfl, rfl, rfl, rfl⟩, by decide⟩, ⟨⟨rfl, rfl, rfl, rfl, rfl⟩, by simp [Atom.new, ascii]⟩,
    ⟨rfl, rfl, rfl, rfl, rfl⟩, by decide⟩

theorem wireUtf8_transfer {recipient : Wallet} (h : recipient = shadow ∨ recipient = payee)
    (haddress : Utf8.valid payer.address = true) : (transfer recipient).WireUtf8 := by
  have hrecipient : Utf8.valid recipient.position = true ∧ Utf8.valid recipient.address = true := by
    obtain rfl | rfl := h <;> decide
  refine ⟨rfl, rfl, rfl, rfl, ?_, ?_⟩
  · simp only [transfer, List.forall_mem_cons, List.not_mem_nil, false_implies, implies_true, and_true]
    exact ⟨Atom.wireUtf8_new _ _ rfl haddress rfl rfl rfl rfl rfl rfl nofun,
      Atom.wireUtf8_new _ _ hrecipient.1 hrecipient.2 rfl rfl rfl rfl rfl rfl nofun,
      Atom.wireUtf8_new _ _ rfl haddress rfl rfl rfl rfl rfl rfl nofun⟩
  · rintro w (hw | hw)
    · obtain rfl := Option.some.inj hw
      exact ⟨haddress, rfl, rfl⟩
    · cases hw

theorem addressAt_payer :
    Wallet.addressAt (.constant 0) (ascii "5ec7e7") (ascii "T") (ascii "0a") 1 = .ok payer.address ∧
      Utf8.valid payer.address = true ∧ payer.address ≠ [] := by
  obtain ⟨sum, hkey⟩ := Wallet.generateWalletKey_eq (.constant 0) (ascii "T") (v := 1) (.inl rfl)
    (show ascii "5ec7e7" ≠ [] by decide) (show ascii "0a" ≠ [] by decide)
  have hlong (key : ByteString) : (Wallet.generateWalletAddress (.constant 0) key).length = 64 := length_shake256Hex _ _ _
  simp only [payer, Wallet.addressAt, hkey, Except.map, Except.toOption, Option.getD_some, true_and]
  exact ⟨Utf8.valid_of_ascii fun c hc => isHexLower_ascii (isHexLower_shake256Hex hc),
    List.ne_nil_of_length_pos (hlong _ ▸ by norm_num)⟩

/-- Building, signing and checking the transfer succeeds. -/
theorem transfer_signed {recipient : Wallet} (h : recipient = shadow ∨ recipient = payee) :
    ((Builder.initValue payer recipient payer (ascii "5")).run fun _ => 0).exec unbuilt =
        (.ok (transfer recipient).atoms, transfer recipient) ∧
      ∃ position m, (sign (.constant 0) (ascii "5ec7e7") false true).exec (transfer recipient) = (.ok position, m) ∧
        check (.constant 0) m = .ok () ∧ m.ReadableBalance ∧ m.WireUtf8 := by
  have hbuild : ((Builder.initValue payer recipient payer (ascii "5")).run fun _ => 0).exec unbuilt =
      (.ok (transfer recipient).atoms, transfer recipient) := by
    obtain rfl | rfl := h <;> decide
  obtain ⟨haddress, hvalid, -⟩ := addressAt_payer
  have hconserved (hash : ByteString) (hhash : hash ≠ []) :
      verifyTokenIsotopeV { transfer recipient with molecularHash := hash } = .ok true := by
    have hsums : tokenSums [] (transfer recipient).atoms = .ok true := by
      obtain rfl | rfl := h <;> decide +kernel
    have hcross : (transfer recipient).atoms.any (fun a => isB a || isF a) = false := by
      obtain rfl | rfl := h <;> decide
    exact (verifyTokenIsotopeV_rehashed (List.cons_ne_nil _ _) hcross hhash).trans hsums
  have hcontinuId : verifyContinuId (transfer recipient) = true :=
    verifyContinuId_of_token rfl (show ascii "T" ≠ ascii "USER" by decide)
  obtain ⟨position, m, hsign, hcheck, hutf8, hsource, -⟩ := sign_accepted (m := transfer recipient) rfl
    (by simp [transfer, Atom.new]) haddress hcontinuId hconserved (wireUtf8_transfer h hvalid) false true
  refine ⟨hbuild, position, m, hsign, hcheck, fun w hw => ?_, hutf8⟩
  rw [hsource] at hw
  obtain rfl := Option.some.inj hw
  exact .inr ⟨7, by decide⟩

theorem addressed_transfer : ∀ place ∈ (transfer payee).atoms.map Atom.place, place.1 ≠ [] ∧ place.2 ≠ [] := by
  obtain ⟨-, -, haddressed⟩ := addressAt_payer
  have hpayee : payee.position ≠ [] ∧ payee.address ≠ [] := by decide
  simp only [transfer, List.map_cons, List.map_nil, List.forall_mem_cons, List.not_mem_nil, false_implies, implies_true,
    and_true]
  exact ⟨⟨by decide, haddressed⟩, hpayee, by decide, haddressed⟩

/-- The transfer to a recipient with an address, signed, written and parsed again. -/
theorem transfer_parsed (F : Json.FloatText) (now : Int64) : ∃ text m, jsonToObject F now text = .ok m ∧
    m.atoms.map Atom.unsigned = (transfer payee).atoms ∧ check (.constant 0) m = .ok () := by
  obtain ⟨-, position, m, hsign, hcheck, hbalance, hutf8⟩ := transfer_signed (.inr rfl)
  obtain ⟨text, m', hread, hunsigned, hcheck', -⟩ := signed_parsed F now rfl (plain_transfer payee) addressed_transfer
    hsign hcheck hbalance hutf8
  exact ⟨text, m', hread, hunsigned, hcheck'⟩

theorem build_roundTrips_iff_transfer :
    ∃ position m, (sign (.constant 0) (ascii "5ec7e7") false true).exec (transfer payee) = (.ok position, m) ∧
      ∀ F now, RoundTrips F (.constant 0) now m ↔
        (Builder.initValue payer payee payer (ascii "5")).addressed none = true := by
  obtain ⟨hbuild, position, m, hsign, hcheck, hbalance, hutf8⟩ := transfer_signed (.inr rfl)
  exact ⟨position, m, hsign, fun F now => build_roundTrips_iff F (.constant 0) now (fun _ => 0)
    (.initValue payer payee payer (ascii "5")) (ascii "5ec7e7") position false true unbuilt (transfer payee) m _ rfl hbuild
    hsign hcheck hbalance hutf8⟩

/-- A transfer to a recipient without an address is accepted and then cannot be read back. -/
theorem transfer_to_shadow_not_roundTrips :
    ((Builder.initValue payer shadow payer (ascii "5")).run fun _ => 0).exec unbuilt =
        (.ok (transfer shadow).atoms, transfer shadow) ∧
      ∃ position m, (sign (.constant 0) (ascii "5ec7e7") false true).exec (transfer shadow) = (.ok position, m) ∧
        check (.constant 0) m = .ok () ∧ m.ReadableBalance ∧ m.WireUtf8 ∧
        ∀ F now, ¬ RoundTrips F (.constant 0) now m := by
  obtain ⟨hbuild, position, m, hsign, hcheck, hbalance, hutf8⟩ := transfer_signed (.inl rfl)
  refine ⟨hbuild, position, m, hsign, hcheck, hbalance, hutf8, fun F now hround => ?_⟩
  obtain ⟨hash, key, signature, _, _, _, rfl⟩ := sign_ok_inv rfl hsign
  obtain ⟨hplain, hplaces⟩ := signed_atoms (plain_transfer shadow) (.constant 0) (ascii "5ec7e7") hash signature false
  have hfilled := (roundTrips_iff_filled F (.constant 0) now hcheck hbalance hutf8 fun a ha => (hplain a ha).1).mp hround
  have hmem : shadow.place ∈ (transfer shadow).atoms.map Atom.place := by simp [transfer, Atom.new, Atom.place, Wallet.place]
  rw [← hplaces] at hmem
  obtain ⟨a, ha, hplace⟩ := List.mem_map.mp hmem
  have hposition : a.position = [] := congrArg Prod.fst hplace
  have hafilled := List.all_eq_true.mp hfilled a ha
  simp [filled, hposition] at hafilled

end Example

end Molecule

end KnishIO
