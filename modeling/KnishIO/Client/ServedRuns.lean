import KnishIO.Client.Lookups
import KnishIO.Molecule.Serving

open ByteString

namespace KnishIO

section Places

variable {E : Type} {S : Setting E} {w t : World E} {H : Shake256} {secret : Secret} {cellSlug : ByteString}
  {source remainder wallet : Wallet} {b : Molecule.Builder} {m : Molecule}

/-- The wallet has a position and an address. -/
def Wallet.Placed (w : Wallet) : Prop := w.position ≠ [] ∧ w.address ≠ []

theorem Wallet.Made.placed {bytes token position : ByteString} {v : Int} (h : wallet.Made H bytes token position v)
    (hposition : position ≠ []) : wallet.Placed := by
  refine ⟨h.position_eq ▸ hposition, ?_⟩
  obtain ⟨key, -, haddress⟩ := Throws.map_ok h.address_eq
  have hlong : (Wallet.generateWalletAddress H key).length = 64 := length_shake256Hex _ _ _
  rw [← haddress]
  exact List.ne_nil_of_length_pos (hlong ▸ by norm_num)

theorem newWallet_placed {token position : ByteString} {mlkemParameterSet otsVersion : Int}
    (h : (newWallet S secret token position mlkemParameterSet otsVersion).exec w = (.ok wallet, t)) : wallet.Placed := by
  obtain ⟨-, -, hnew⟩ | ⟨hposition, -, hnew⟩ := newWallet_ok h
  · exact (Wallet.made_new hnew).placed (S.draw _).ne_nil
  · exact (Wallet.made_new hnew).placed hposition

/-- A signed molecule has plain atoms, which are filled exactly when the wallets of the builder have places. -/
theorem SignedBy.filled_iff (h : SignedBy H cellSlug source remainder b secret m) :
    (∀ a ∈ m.atoms, a.Plain) ∧ ((∀ a ∈ m.atoms, Molecule.filled a = true) ↔ b.addressed (some remainder) = true) := by
  obtain ⟨clock, atoms, built, position, hrun, hsign⟩ := h
  obtain ⟨new, hbuilt, hplaces, hnew⟩ := b.writes_run clock (some remainder) _ atoms built rfl hrun
  have hatoms : built.atoms = new := by
    rw [hbuilt]
    rfl
  have hplain : ∀ a ∈ built.atoms, a.Plain ∧ a.isotope ≠ [] := by rwa [hatoms]
  obtain ⟨front, rest, hsplit, -, -⟩ := (b.opens hrun rfl rfl).front
  obtain ⟨hash, key, signature, -, -, -, rfl⟩ := Molecule.sign_ok_inv hsplit hsign
  obtain ⟨hsigned, hsignedPlaces⟩ := Molecule.signed_atoms hplain H secret.bytes hash signature false
  refine ⟨fun a ha => (hsigned a ha).1, ?_⟩
  rw [Molecule.Builder.addressed, ← hplaces, ← hatoms, ← hsignedPlaces, List.all_map, List.all_eq_true]
  refine forall₂_congr fun a ha => ?_
  have hisotope := (hsigned a ha).2
  simp only [Molecule.filled, Function.comp_apply, Bool.and_eq_true, decide_eq_true_eq]
  exact ⟨fun h => h.1, fun h => ⟨h, hisotope⟩⟩

/-- A builder with a ContinuID atom puts its source and the remainder on the atoms. -/
theorem addressed_of_continuId (hb : b.continuId = true) (hsource : b.source.Placed) (hremainder : remainder.Placed) :
    b.addressed (some remainder) = true := by
  have hplaces : b.places (some remainder) = [b.source.place, remainder.place] := by
    cases b <;> first | rfl | cases hb
  obtain ⟨hsourcePosition, hsourceAddress⟩ := hsource
  obtain ⟨hremainderPosition, hremainderAddress⟩ := hremainder
  simp [Molecule.Builder.addressed, hplaces, Wallet.place, hsourcePosition, hsourceAddress, hremainderPosition, hremainderAddress]

end Places

section Dispatch

variable {E : Type} {S : Setting E} {w t u : World E} {secret : Secret} {m : Molecule} {addressed : Bool}

/-- A molecule that passes the check, with or without a place on every atom. -/
structure Dispatched (S : Setting E) (addressed : Bool) (m : Molecule) : Prop where
  checked : Molecule.check S.hash m = .ok ()
  plain : ∀ a ∈ m.atoms, a.Plain
  filled_iff : (∀ a ∈ m.atoms, Molecule.filled a = true) ↔ addressed = true

theorem SignedBy.dispatched {cellSlug : ByteString} {source remainder : Wallet} {b : Molecule.Builder}
    (h : SignedBy S.hash cellSlug source remainder b secret m) (hcheck : Molecule.check S.hash m = .ok ()) :
    Dispatched S (b.addressed (some remainder)) m :=
  ⟨hcheck, h.filled_iff.1, h.filled_iff.2⟩

theorem IsUserSigned.dispatched (h : IsUserSigned S w t secret m) : Dispatched S true m := by
  obtain ⟨bundle, cellSlug, mlKemParameterSet, source, remainder, b, hsigned⟩ := h
  obtain ⟨k, -, -, hremainder⟩ := hsigned.remainder_of
  have hsource : source.Placed := by
    cases hsigned.source_of with
    | fresh hpointer hnew => exact (Wallet.made_new hnew).placed (S.draw _).ne_nil
    | pointer version hpointer hbind hnew => exact (Wallet.made_new hnew).placed hpointer
  have haddressed := addressed_of_continuId hsigned.continuId (hsigned.source_eq ▸ hsource)
    ((Wallet.made_new hremainder).placed (S.draw _).ne_nil)
  exact haddressed ▸ hsigned.signed.dispatched hsigned.checked

theorem RowSource.placed {token : ByteString} {mlKemParameterSet : Int} {reply : Reply} {source : Wallet}
    (h : RowSource S w secret token mlKemParameterSet (reply.tokenWallet S.floatText) source) : source.Placed := by
  obtain ⟨version, ledger, -, hnew, hsource⟩ := h.ledger
  rw [hsource]
  exact (Wallet.made_new hnew).placed (Reply.tokenWallet_position _ _ h.found)

/-- The end of an operation. -/
theorem outcome_dispatched {w₀ : World E} {cellSlug : ByteString} {source remainder : Wallet} {b : Molecule.Builder}
    (hw : Quiet S w₀ w) (hb : b.addressed (some remainder) = addressed) :
    Outcome S w₀ (fun _ _ m => Dispatched S addressed m)
      ((assemble S cellSlug source remainder b >>= fun m => submitMolecule S m).exec w).2 :=
  outcome_assemble hw fun _ _ _ hsigned hcheck => hb ▸ hsigned.dispatched hcheck

end Dispatch

section ValueOperations

variable {E : Type} {S : Setting E} {w t : World E} {secret : Secret}

theorem addressed_initValue {source recipient remainder : Wallet} {amount : ByteString} (h : recipient.place = ([], [])) :
    Molecule.Builder.addressed (some remainder) (.initValue source recipient remainder amount) = false := by
  simp [Molecule.Builder.addressed, Molecule.Builder.places, h]

/-- Splitting changes no places. -/
theorem place_splitUnits (w : Wallet) (units : List ByteString) (remainder recipient : Wallet) :
    ((Wallet.splitUnits w units remainder (some recipient)).2.2.getD recipient).place = recipient.place := by
  unfold Wallet.splitUnits
  split <;> rfl

theorem places_splitUnitsMulti (w : Wallet) (lists : List (List ByteString)) (recipients : List Wallet) (remainder : Wallet) :
    (Wallet.splitUnitsMulti w lists recipients remainder).1.place = w.place ∧
      (Wallet.splitUnitsMulti w lists recipients remainder).2.1.map Wallet.place = recipients.map Wallet.place ∧
      (Wallet.splitUnitsMulti w lists recipients remainder).2.2.place = remainder.place := by
  unfold Wallet.splitUnitsMulti
  split
  · exact ⟨rfl, rfl, rfl⟩
  · refine ⟨rfl, ?_, rfl⟩
    rw [List.map_map]
    conv_rhs => rw [← List.zipIdx_map_fst 0 recipients, List.map_map]
    rfl

/-- The recipients of a transfer have no places. -/
theorem places_recipientShadows {token : ByteString} {recipients : List TransferRecipient} {shadows : List Wallet}
    (h : (recipientShadows S secret token recipients).exec w = (.ok shadows, t)) :
    shadows.map Wallet.place = recipients.map fun _ => ([], []) := by
  induction recipients generalizing w t shadows with
  | nil =>
    obtain ⟨hnil, -⟩ := Prod.mk.inj h
    rw [← Except.ok.inj hnil]
    rfl
  | cons r recipients ih =>
    rw [recipientShadows, Act.exec_bind] at h
    rcases hdrawn : (newWallet S secret token [] 1024 1).exec w with ⟨e | drawn, u⟩
    · simp [hdrawn] at h
    simp only [hdrawn, Act.andThen_ok, Act.exec_bind] at h
    rcases hrest : (recipientShadows S secret token recipients).exec u with ⟨e | rest, v⟩
    · simp [hrest] at h
    simp only [hrest, Act.andThen_ok, Act.exec_pure, Prod.mk.injEq, Except.ok.injEq] at h
    obtain ⟨rfl, -⟩ := h
    rw [List.map_cons, List.map_cons, ih hrest]
    rfl

theorem dispatched_transferToken (bundleHash token : ByteString) (amount : BinaryFloat.Value) (batchId : ByteString)
    (units : List ByteString) :
    Outcome S w (fun _ _ m => Dispatched S false m) ((transferToken S bundleHash token amount batchId units).exec w).2 := by
  refine .ensureAuthenticated .refl (.secretValue .refl fun secret _ => .getBundle .refl fun bundle _ => ?_)
  refine .row fun info hfound hinfo => .ofExcept (quiet_of_balance .refl) fun amountLL _ => ?_
  refine .require (quiet_of_balance .refl) fun _ => .get (.ledger hfound hinfo fun ledger _ => ?_)
  refine .bind (moves_newWallet _ _ _ _ _) (quiet_of_balance .refl) fun drawn t _ _ ht => ?_
  refine .bind (moves_newWallet _ _ _ _ _) ht fun fresh u _ _ hu => ?_
  exact outcome_dispatched hu (addressed_initValue (place_splitUnits _ units fresh (shadowOf drawn bundleHash batchId)))

theorem dispatched_transferTokens (token : ByteString) (recipients : List TransferRecipient) :
    Outcome S w (fun _ _ m => Dispatched S recipients.isEmpty m) ((transferTokens S token recipients).exec w).2 := by
  refine .ensureAuthenticated .refl (.secretValue .refl fun secret _ => .getBundle .refl fun bundle _ => ?_)
  refine .ofExcept .refl fun (amounts, total) _ => .row fun info hfound hinfo => ?_
  refine .require (quiet_of_balance .refl) fun _ => .get (.ledger hfound hinfo fun ledger hrow => ?_)
  refine .bind (moves_recipientShadows _ _ _) (quiet_of_balance .refl) fun shadows t hshadows _ ht => ?_
  refine .bind (moves_newWallet _ _ _ _ _) ht fun fresh u hfresh _ hu => ?_
  rw [hinfo] at hrow
  obtain ⟨hsource, hrecipients, hremainder⟩ := places_splitUnitsMulti (info.fund ledger) (recipients.map (·.units)) shadows fresh
  refine outcome_dispatched hu ?_
  obtain ⟨hledgerPosition, hledgerAddress⟩ := hrow.placed
  obtain ⟨hfreshPosition, hfreshAddress⟩ := newWallet_placed hfresh
  have hledger : (info.fund ledger).place = (ledger.position, ledger.address) := rfl
  simp only [Molecule.Builder.addressed, Molecule.Builder.places, hsource, hrecipients, hremainder, hledger,
    places_recipientShadows hshadows]
  cases recipients with
  | nil => simp [Wallet.place, hledgerPosition, hledgerAddress, hfreshPosition, hfreshAddress]
  | cons r recipients => simp

theorem dispatched_burnToken (token : ByteString) (amount : BinaryFloat.Value) (units : List ByteString) :
    Outcome S w (fun _ _ m => Dispatched S false m) ((burnToken S token amount units).exec w).2 := by
  refine .ensureAuthenticated .refl (.secretValue .refl fun secret _ => .getBundle .refl fun bundle _ => ?_)
  refine .row fun info hfound hinfo => .ofExcept (quiet_of_balance .refl) fun amountLL _ => ?_
  refine .require (quiet_of_balance .refl) fun _ => .get (.ledger hfound hinfo fun ledger _ => ?_)
  refine .bind (moves_newWallet _ _ _ _ _) (quiet_of_balance .refl) fun drawn t _ _ ht => ?_
  refine .bind (moves_newWallet _ _ _ _ _) ht fun fresh u _ _ hu => ?_
  exact outcome_dispatched hu (addressed_initValue rfl)

theorem dispatched_depositBufferToken (token : ByteString) (amount : BinaryFloat.Value) (tradeRates : Metas) :
    Outcome S w (fun _ _ m => Dispatched S true m) ((depositBufferToken S token amount tradeRates).exec w).2 := by
  refine .ensureAuthenticated .refl (.secretValue .refl fun secret _ => .getBundle .refl fun bundle _ => ?_)
  refine .row fun info hfound hinfo => .ofExcept (quiet_of_balance .refl) fun amountLL _ => ?_
  refine .require (quiet_of_balance .refl) fun _ => .get (.ledger hfound hinfo fun ledger hrow => ?_)
  refine .bind (moves_newWallet _ _ _ _ _) (quiet_of_balance .refl) fun buffer t hbuffer _ ht => ?_
  refine .bind (moves_newWallet _ _ _ _ _) ht fun remainder u hremainder _ hu => ?_
  rw [hinfo] at hrow
  obtain ⟨hledgerPosition, hledgerAddress⟩ := hrow.placed
  obtain ⟨hbufferPosition, hbufferAddress⟩ := newWallet_placed hbuffer
  obtain ⟨hremainderPosition, hremainderAddress⟩ := newWallet_placed hremainder
  refine outcome_dispatched hu ?_
  simp [Molecule.Builder.addressed, Molecule.Builder.places, Wallet.place, hledgerPosition, hledgerAddress, hbufferPosition,
    hbufferAddress, hremainderPosition, hremainderAddress]

theorem dispatched_withdrawFrom {w₀ : World E} {senderBundle token : ByteString} {amount : BinaryFloat.Value} {config : Config}
    {source : Wallet} (hw : Quiet S w₀ w) :
    Outcome S w₀ (fun _ _ m => Dispatched S false m)
      ((withdrawFrom S secret senderBundle token amount config source).exec w).2 := by
  refine .ofExcept hw fun amountLL _ => .require hw fun _ => ?_
  refine .bind (moves_newWallet _ _ _ _ _) hw fun drawn t _ _ ht => ?_
  refine .bind ?_ ht fun batchId u _ _ hu => ?_
  · split
    · exact Act.Moves.pure _
    · exact moves_randomHex
  refine .bind (moves_newWallet _ _ _ _ _) hu fun fresh v _ _ hv => ?_
  exact outcome_dispatched hv (by simp [Molecule.Builder.addressed, Molecule.Builder.places, Wallet.place, shadowOf])

theorem dispatched_withdrawBufferToken (token : ByteString) (amount : BinaryFloat.Value) (sourceWallet : Option Wallet) :
    Outcome S w (fun _ _ m => Dispatched S false m) ((withdrawBufferToken S token amount sourceWallet).exec w).2 := by
  refine .ensureAuthenticated .refl (.secretValue .refl fun secret _ => .getBundle .refl fun bundle _ => .get ?_)
  exact .bind (moves_bufferSource _ _ _ _ _) .refl fun source t _ _ ht => dispatched_withdrawFrom ht

theorem dispatched_fuseToken (bundleHash tokenSlug newTokenUnitId : ByteString) (fusedTokenUnitIds : List ByteString) :
    Outcome S w (fun _ _ m => Dispatched S false m)
      ((fuseToken S bundleHash tokenSlug newTokenUnitId fusedTokenUnitIds).exec w).2 := by
  refine .ensureAuthenticated .refl (.secretValue .refl fun secret _ => .getBundle .refl fun bundle _ => ?_)
  refine .get (.row fun info hfound hinfo => .ledger hfound hinfo fun ledger _ => ?_)
  refine .bind (moves_newWallet _ _ _ _ _) (quiet_of_balance .refl) fun own t _ _ ht => ?_
  refine .bind (moves_newWallet _ _ _ _ _) ht fun remainder u _ _ hu => ?_
  refine .bind (moves_fusionBatchIds _) hu fun drawn v _ _ hv => ?_
  exact outcome_dispatched hv (by simp [Molecule.Builder.addressed, Molecule.Builder.places])

end ValueOperations

section Logins

variable {E : Type} {S : Setting E} {w t : World E} {secret : Secret} {cellSlug : ByteString} {encrypt : Bool}
  {P : Molecule → Prop} {r : Throws Response}

theorem posts_of_silent (h : ∃ events, (∀ named, Disciplined S named w t events) ∧
    ∀ secret m reply, .proposed secret m reply ∉ events) : Posts P w t := by
  obtain ⟨events, hevents, hnone⟩ := h
  exact ⟨events, (hevents fun _ => True).log, fun secret m reply hmem => absurd hmem (hnone secret m reply)⟩

theorem Authorizes.dispatched {source : Wallet} {token position : ByteString} {v : Int}
    (h : Authorizes S secret cellSlug encrypt source w r t) (hsource : source.Made S.hash secret.bytes token position v)
    (hposition : position ≠ []) : Posts (Dispatched S true) w t := by
  obtain ⟨u, m, hsigned, -, rfl⟩ := h
  obtain ⟨remainder, hremainder, hby⟩ := hsigned.signed
  have haddressed := addressed_of_continuId (b := .initAuthorization source encrypt) rfl (hsource.placed hposition)
    ((Wallet.made_new hremainder).placed (S.draw _).ne_nil)
  obtain rfl := hsigned.drawn
  refine ⟨[.proposed secret m (World.verdict S { w with drawn := w.drawn + 1 } m)], rfl, fun secret' m' reply hmem => ?_⟩
  obtain ⟨-, rfl, -⟩ := Event.proposed.inj (List.mem_singleton.mp hmem)
  exact haddressed ▸ hby.dispatched (hby.check_authorization hsource.derived)

theorem FreshOutcome.dispatched (h : FreshOutcome S secret cellSlug encrypt w r t) : Posts (Dispatched S true) w t := by
  cases h with
  | failed hquiet => exact hquiet.posts
  | sent hsource hsent => exact hsent.dispatched (Wallet.made_new hsource) (S.draw _).ne_nil

theorem LoginOutcome.dispatched {pointer : Option Response.ContinuID}
    (h : LoginOutcome S secret cellSlug encrypt w pointer r t) : Posts (Dispatched S true) w t := by
  have hpointer {u v : World E} {p : Response.ContinuID} {source : Wallet} {r : Throws Response}
      (hsource : PointerSource S u secret p source) (hsent : Authorizes S secret cellSlug encrypt source u r v) :
      Posts (Dispatched S true) u v := by
    obtain ⟨version, -, hnew⟩ := hsource.ledger
    exact hsent.dispatched (Wallet.made_new hnew) hsource.position
  cases h with
  | failed hquiet => exact hquiet.posts
  | fresh _ houtcome => exact houtcome.dispatched
  | settled _ hsource hsent _ => exact hpointer hsource hsent
  | fallback _ hsource hsent _ houtcome => exact (hpointer hsource hsent).trans houtcome.dispatched

/-- Every molecule of a login has a place on every atom. -/
theorem AuthOutcome.dispatched {given slug : Option ByteString} (h : AuthOutcome S given slug encrypt w r t) :
    Posts (Dispatched S true) w t := by
  have hasked (u : World E) (bundle : ByteString) : Posts (Dispatched S true) u (u.asked S (.continuId bundle)) :=
    Quiet.posts (.ask (.continuId bundle) rfl .refl)
  cases h with
  | unidentified hstep =>
    obtain ⟨_, _, rfl⟩ | ⟨bytes, _, houtcome⟩ := hstep
    · exact Quiet.posts (S := S) .refl
    · exact posts_of_silent houtcome.disciplined
  | unbundled hu _ => exact posts_of_silent hu.disciplined
  | unwritable hu _ _ => exact (posts_of_silent hu.disciplined).trans (hasked _ _)
  | queryFailed hu _ _ => exact (posts_of_silent hu.disciplined).trans (hasked _ _)
  | login hu _ _ houtcome => exact ((posts_of_silent hu.disciplined).trans (hasked _ _)).trans houtcome.dispatched

end Logins

section Runs

variable {E : Type} {S : Setting E} {w t : World E}

/-- The calls whose molecules have a position and an address on every atom. The others credit or burn at a bundle,
or burn fused units. -/
def Op.addressed : Op → Bool
  | .transferToken _ _ _ _ _ => false
  | .transferTokens _ recipients => recipients.isEmpty
  | .burnToken _ _ _ => false
  | .withdrawBufferToken _ _ _ => false
  | .fuseToken _ _ _ _ => false
  | _ => true

theorem Posts.of_sends {P : Molecule → Prop} {m : Molecule} (h : Posts P w t) (hsends : Sends w t m) : P m := by
  obtain ⟨events, hlog, hall⟩ := h
  obtain ⟨secret, reply, hmem⟩ := (sends_iff hlog).mp hsends
  exact hall secret m reply hmem

theorem Outcome.of_sends {P : Molecule → Prop} {m : Molecule} (h : Outcome S w (fun _ _ m => P m) t) (hsends : Sends w t m) :
    P m := by
  obtain ⟨_, _, -, hP, -⟩ := h.sends hsends
  exact hP

/-- What a call of any kind sends. -/
theorem Op.dispatched (S : Setting E) (op : Op) (w : World E) {m : Molecule} (hsends : Sends w (applyOp S op w) m) :
    Dispatched S op.addressed m := by
  have huser {t : World E} (h : Outcome S w (IsUserSigned S w) t) (hsends : Sends w t m) : Dispatched S true m :=
    Outcome.of_sends (h.mono fun _ _ _ _ hsigned => hsigned.dispatched) hsends
  cases op with
  | setSecret secret => exact (posts_of_silent (setSecret_outcome S w secret).disciplined).of_sends hsends
  | switchEncryption encrypt =>
    obtain ⟨signer, reply, hmem⟩ := (sends_iff (List.append_nil _).symm).mp hsends
    cases hmem
  | requestAuthToken secret cellSlug encrypt =>
    exact (requestAuthToken_outcome S w secret cellSlug encrypt).dispatched.of_sends hsends
  | createToken token amount tokenMeta units => exact huser (outcome_createToken token amount tokenMeta units) hsends
  | createWallet token => exact huser (outcome_createWallet token) hsends
  | createMeta metaType metaId metas => exact huser (outcome_createMeta metaType metaId metas) hsends
  | claimShadowWallet token batchId => exact huser (outcome_claimShadowWallet token batchId) hsends
  | replenishToken token amount units => exact huser (outcome_replenishToken token amount units) hsends
  | transferToken bundleHash token amount batchId units =>
    exact (dispatched_transferToken bundleHash token amount batchId units).of_sends hsends
  | transferTokens token recipients => exact (dispatched_transferTokens token recipients).of_sends hsends
  | burnToken token amount units => exact (dispatched_burnToken token amount units).of_sends hsends
  | depositBufferToken token amount tradeRates =>
    exact (dispatched_depositBufferToken token amount tradeRates).of_sends hsends
  | withdrawBufferToken token amount sourceWallet =>
    exact (dispatched_withdrawBufferToken token amount sourceWallet).of_sends hsends
  | fuseToken bundleHash tokenSlug newTokenUnitId fusedTokenUnitIds =>
    exact (dispatched_fuseToken bundleHash tokenSlug newTokenUnitId fusedTokenUnitIds).of_sends hsends

/-- Served back in any rendering, a molecule that a call of a run sent verifies exactly when the call is not one
that credits or burns at a bundle, or fuses; and a molecule of UTF-8 strings has a rendering. -/
theorem served_back_verifies (S : Setting E) (w : World E) (ops : List Op) (clock : Option ByteString → Int64) :
    ∀ c ∈ calls S w ops, ∀ m, Sends c.before c.after m →
      (m.WireUtf8 → Json.parse S.floatText m.servedForm.text = some m.servedForm ∧
        Molecule.Serves S.floatText m.servedForm m) ∧
      ∀ servedJson served, Json.parse S.floatText servedJson = some served → Molecule.Serves S.floatText served m →
        ∃ r, Molecule.verifyFromServerData S.floatText S.hash clock servedJson = .ok r ∧
          (r.verified = true ↔ c.op.addressed = true) := by
  intro c hc m hsends
  rw [after_of_mem_calls hc] at hsends
  obtain ⟨hcheck, hplain, hfilled⟩ := c.op.dispatched S c.before hsends
  refine ⟨fun hutf8 => ?_, fun servedJson served hparse hserves => ?_⟩
  · exact ⟨Json.parse_text _ _ (Molecule.valid_servedForm _ hutf8), Molecule.serves_servedForm _ hplain⟩
  · obtain ⟨r, hr, hverified⟩ := Molecule.verifies_served_iff clock hcheck hparse hserves
    exact ⟨r, hr, hverified.trans hfilled⟩

/-- A ready client sends a metadata molecule that can be written. -/
theorem World.Ready.createMeta_written {secret : Secret} {bundle metaType metaId : ByteString} {metas : Metas}
    (h : w.Ready S secret bundle) (haccepts : Accepts S w bundle) (hmetaType : Utf8.valid metaType = true)
    (hmetaId : Utf8.valid metaId = true) (hmetas : ∀ m ∈ metas, Utf8.valid m.1 = true ∧ Utf8.valid m.2 = true) :
    ∃ m, Sends w (applyOp S (.createMeta metaType metaId metas) w) m ∧ m.WireUtf8 := by
  obtain ⟨u, m, hquiet, hutf8, ht⟩ := h.createMeta_sends haccepts hmetaType hmetaId hmetas
  rw [applyOp_createMeta, ht]
  exact ⟨m, hquiet.sends_proposed secret m, hutf8⟩

theorem served_back_verifies_meta : ∃ m r,
    Sends (loginWorld [unknownBundle, acceptance])
      (applyOp scripted (.createMeta [] [] []) (loginWorld [unknownBundle, acceptance])) m ∧
    Molecule.verifyFromServerData scripted.floatText scripted.hash (fun _ => 0) m.servedForm.text = .ok r ∧
    r.verified = true := by
  have hpointer : (unknownBundle.pointer integersOnly).1 = [] := by decide +kernel
  obtain ⟨m, hsends, hutf8⟩ : ∃ m, Sends (loginWorld [unknownBundle, acceptance])
      (applyOp scripted (.createMeta [] [] []) (loginWorld [unknownBundle, acceptance])) m ∧ m.WireUtf8 :=
    (ready_loginWorld _).createMeta_written (accepts_of_pointerless hpointer) rfl rfl (by simp)
  have hserved (w : World (List Reply)) (hsent : Sends w (applyOp scripted (.createMeta [] [] []) w) m) :=
    served_back_verifies scripted w [.createMeta [] [] []] (fun _ => 0) _ (mem_calls_singleton scripted w _) m hsent
  obtain ⟨hform, hverifies⟩ := hserved _ hsends
  obtain ⟨hparse, hserves⟩ := hform hutf8
  obtain ⟨r, hr, hverified⟩ := hverifies _ _ hparse hserves
  exact ⟨m, r, hsends, hr, hverified.mpr rfl⟩

end Runs

end KnishIO
