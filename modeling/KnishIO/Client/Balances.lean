import KnishIO.Client.ValueRuns
import KnishIO.Response.Parsing

open ByteString

namespace KnishIO

/-- A `ResponseBalance`: its data and the balance that was parsed from them. -/
structure ResponseBalance extends Response where
  balance : Option ResponseBalance.Balance := none

/-- A unit as the response carries it. -/
def unitJson (u : TokenUnit) : Json :=
  Json.object [(ascii "id", .str u.id), (ascii "name", .str u.name),
    (ascii "metas", Json.object (u.metas.map fun m => (m.1, .str m.2)))]

/-- The row as the response carries it; the batch id is left out. -/
def balanceMembers (bundle token : ByteString) (tw : TokenWalletInfo) : List (ByteString × Json) :=
  [(ascii "position", .str tw.position), (ascii "address", .str tw.address), (ascii "amount", .str tw.balance),
    (ascii "tokenSlug", .str token), (ascii "bundleHash", .str bundle), (ascii "tokenUnits", .arr (tw.tokenUnits.map unitJson))]

def balanceData (bundle token : ByteString) (tw : TokenWalletInfo) : Json :=
  Json.object [(ascii "Balance", Json.object (balanceMembers bundle token tw))]

section Query

variable {E : Type} (S : Setting E)

/-- The client's own bundle is asked for even where the caller gives another one. -/
def queryBalance (token : ByteString) (bundle : Option ByteString) : Run E ResponseBalance := do
  ensureAuthenticated
  let own ← getBundle
  let b := bundle.getD own
  let tw ← resolveTokenWallet S b token
  if tw.found then
    let data := balanceData b token tw
    let balance ← Act.ofExcept (ResponseBalance.parseData data)
    return { data, balance }
  else return {}

end Query

section Reading

variable {F : Json.FloatText}

/-- What a response says of a row. -/
def TokenWalletInfo.balanceOf (bundle token : ByteString) (tw : TokenWalletInfo) : ResponseBalance.Balance where
  address := tw.address
  bundleHash := bundle
  tokenSlug := token
  amount := tw.balance
  position := tw.position
  tokenUnits := tw.tokenUnits

/-- A unit whose metas stand in the order of a map is read as it was written. -/
theorem parseTokenUnit_unitJson {u : TokenUnit} (h : u.metas.Pairwise fun m n => m.1 < n.1) :
    parseTokenUnit (unitJson u) = u := by
  have hfind {key : ByteString} {value : Json}
      (hmem : (key, value) ∈ [(ascii "id", Json.str u.id), (ascii "name", Json.str u.name),
      (ascii "metas", Json.object (u.metas.map fun m => (m.1, .str m.2)))]) : (unitJson u).find? key = some value :=
    Json.find?_object_of_mem (show [ascii "id", ascii "name", ascii "metas"].Nodup by decide) hmem
  have hid : (unitJson u).stringAt "id" = some u.id := congrArg (·.bind Json.string?) (hfind (.head _))
  have hname : (unitJson u).stringAt "name" = some u.name := congrArg (·.bind Json.string?) (hfind (.tail _ (.head _)))
  have hsorted : Json.Sorted ([] ++ u.metas.map fun m => (m.1, Json.str m.2)) := List.pairwise_map.mpr h
  have hmetas : (unitJson u).find? (ascii "metas") = some (.obj (u.metas.map fun m => (m.1, Json.str m.2))) :=
    (hfind (.tail _ (.tail _ (.head _)))).trans (congrArg (some ∘ Json.obj) (Json.assign_of_sorted hsorted))
  rw [parseTokenUnit, hid, hname, hmetas]
  simp [Json.members, List.filterMap_map, Json.string?]

/-- The metas of the units of a row stand in the order of a map. -/
theorem Reply.sorted_tokenWallet (F : Json.FloatText) (reply : Reply) :
    ∀ u ∈ (reply.tokenWallet F).tokenUnits, u.metas.Pairwise fun m n => m.1 < n.1 := by
  have hunit {j : Json} (hj : j.Valid F) : (parseTokenUnit j).metas.Pairwise fun m n => m.1 < n.1 := by
    rw [parseTokenUnit]
    cases hmetas : j.find? (ascii "metas") with
    | none => simp
    | some metas =>
      have hvalid := Json.valid_of_find? hj hmetas
      cases metas with
      | obj members =>
        rw [Option.map_some, Option.getD_some]
        refine List.Pairwise.filterMap _ (fun m n hmn m' hm' n' hn' => ?_) hvalid.1
        obtain ⟨_, -, rfl⟩ := Option.map_eq_some_iff.mp hm'
        obtain ⟨_, -, rfl⟩ := Option.map_eq_some_iff.mp hn'
        exact hmn
      | _ => simp [Json.members]
  rw [Reply.tokenWallet]
  cases hrow : reply.row F "Balance" with
  | none => simp
  | some bal =>
    simp only [parseWalletTokenUnits]
    cases hunits : bal.find? (ascii "tokenUnits") with
    | none => simp
    | some units =>
      have hvalid := Json.valid_of_find? (Reply.valid_row hrow) hunits
      cases units with
      | arr units => exact List.forall_mem_map.mpr fun u hu => hunit ((Json.validItems_iff F units).mp hvalid u hu)
      | _ => simp

theorem find?_balanceMembers {bundle token : ByteString} {tw : TokenWalletInfo} {key : ByteString} {value : Json}
    (h : (key, value) ∈ balanceMembers bundle token tw) :
    (Json.object (balanceMembers bundle token tw)).find? key = some value :=
  Json.find?_object_of_mem (show [ascii "position", ascii "address", ascii "amount", ascii "tokenSlug", ascii "bundleHash",
    ascii "tokenUnits"].Nodup by decide) h

theorem parseRow_balanceMembers (bundle token : ByteString) {tw : TokenWalletInfo}
    (h : ∀ u ∈ tw.tokenUnits, u.metas.Pairwise fun m n => m.1 < n.1) :
    ResponseBalance.parseRow (Json.object (balanceMembers bundle token tw)) = .ok (tw.balanceOf bundle token) := by
  have hstring (key : String) (s : ByteString) (hmem : (ascii key, Json.str s) ∈ balanceMembers bundle token tw) :
      convertedString (Json.object (balanceMembers bundle token tw)) key = .ok (some s) := by
    rw [convertedString, find?_balanceMembers hmem]
    rfl
  have hmissing (key : String) (hkey : ∀ m ∈ balanceMembers bundle token tw, m.1 ≠ ascii key) :
      (Json.object (balanceMembers bundle token tw)).find? (ascii key) = none := Json.find?_object_of_forall_ne hkey
  have hbatchId : convertedString (Json.object (balanceMembers bundle token tw)) "batchId" = .ok none := by
    rw [convertedString, hmissing "batchId" (by simp [balanceMembers]; decide)]
  have hcharacters : ResponseBalance.characters (Json.object (balanceMembers bundle token tw)) = .ok [] := by
    rw [ResponseBalance.characters, hmissing "characters" (by simp [balanceMembers]; decide)]
  have hunits : parseTokenUnits (Json.object (balanceMembers bundle token tw)) = .ok tw.tokenUnits := by
    rw [parseTokenUnits_eq, parseWalletTokenUnits,
      find?_balanceMembers (.tail _ (.tail _ (.tail _ (.tail _ (.tail _ (.head _))))))]
    dsimp only
    rw [List.map_map]
    exact congrArg Except.ok ((List.map_congr_left fun u hu => parseTokenUnit_unitJson (h u hu)).trans (List.map_id' _))
  rw [ResponseBalance.parseRow, Throws.bind_of_ok (hstring "address" tw.address (.tail _ (.head _))),
    Throws.bind_of_ok (hstring "bundleHash" bundle (.tail _ (.tail _ (.tail _ (.tail _ (.head _)))))),
    Throws.bind_of_ok (hstring "tokenSlug" token (.tail _ (.tail _ (.tail _ (.head _))))),
    Throws.bind_of_ok (hstring "amount" tw.balance (.tail _ (.tail _ (.head _)))),
    Throws.bind_of_ok (hstring "position" tw.position (.head _)), Throws.bind_of_ok hbatchId, Throws.bind_of_ok hcharacters,
    Throws.bind_of_ok hunits]
  rfl

/-- The response reads what the row says. -/
theorem parseData_balanceData (bundle token : ByteString) {tw : TokenWalletInfo}
    (h : ∀ u ∈ tw.tokenUnits, u.metas.Pairwise fun m n => m.1 < n.1) :
    ResponseBalance.parseData (balanceData bundle token tw) = .ok (some (tw.balanceOf bundle token)) := by
  have hrow : (balanceData bundle token tw).find? (ascii "Balance") = some (Json.object (balanceMembers bundle token tw)) :=
    Json.find?_object_of_mem (by simp) (.head _)
  rw [ResponseBalance.parseData, hrow]
  exact congrArg (Except.map some) (parseRow_balanceMembers bundle token h)

end Reading

section Spending

variable {E : Type} {S : Setting E} {w : World E} {secret : Secret} {bundle token : ByteString}

/-- What the client reads is the row, and reading does nothing but ask for it. -/
theorem World.Ready.queries (h : w.Ready S secret bundle) (token : ByteString) (given : Option ByteString) :
    let b := given.getD bundle
    let tw := (told S w b token false).tokenWallet S.floatText
    (queryBalance S token given).exec w =
      (.ok (if tw.found then { data := balanceData b token tw, balance := some (tw.balanceOf b token) } else {}),
        w.asked S (.balance b token false)) := by
  dsimp only
  have htells := exec_resolveTokenWallet (S := S) h.plain (given.getD bundle) token false
  rw [queryBalance, exec_bind_of_ok (exec_ensureAuthenticated h.authenticated), exec_bind_of_ok (exec_getBundle h.bundle_eq)]
  dsimp only
  rw [exec_bind_of_ok htells]
  dsimp only [told]
  by_cases hfound : ((S.serve (.balance (given.getD bundle) token false) w.env).1.tokenWallet S.floatText).found = true
  · have hparse := parseData_balanceData (given.getD bundle) token (Reply.sorted_tokenWallet S.floatText
      (S.serve (.balance (given.getD bundle) token false) w.env).1)
    simp only [hfound, ↓reduceIte]
    rw [exec_bind_of_ok (by rw [hparse, Act.exec_ofExcept])]
    rfl
  · simp only [hfound, Bool.false_eq_true, ↓reduceIte]
    rfl

/-- Asking leaves such a client as it is. -/
theorem World.Ready.asked (h : w.Ready S secret bundle) (request : Request) : (w.asked S request).Ready S secret bundle :=
  ⟨⟨h.kem, h.parameterSet⟩, h.authenticated, h.secret_eq, h.bundle_eq, h.plain, h.cellSlug⟩

/-- The operation throws and has sent nothing but queries. -/
def Withheld (S : Setting E) (w : World E) (r : Throws Response × World E) : Prop := Quiet S w r.2 ∧ ∃ e, r.1 = .error e

theorem exec_require_neg_bind {α : Type} {c : Prop} [Decidable c] {e : Exception} {f : PUnit → Run E α} {u : World E} (hc : ¬ c) :
    (Act.require c e >>= f).exec u = (.error e, u) := by
  rw [Act.require, if_neg hc]
  rfl

/-- How the operations on one amount begin. -/
theorem World.Ready.withheld (h : w.Ready S secret bundle) {amount : BinaryFloat.Value} {missing short : Exception}
    {f : Secret → ByteString → TokenWalletInfo → Int → Run E Response}
    (hunfunded : ((told S w bundle token false).tokenWallet S.floatText).found = true →
      ∀ k, toLongLong amount = .ok k → spendable ((told S w bundle token false).tokenWallet S.floatText).balance < k) :
    Withheld S w (Act.exec (do
      ensureAuthenticated
      let secret ← secretValue
      let senderBundle ← getBundle
      let src ← resolveTokenWallet S senderBundle token
      Act.require src.found missing
      let amountLL ← Act.ofExcept (toLongLong amount)
      Act.require (amountLL ≤ spendable src.balance) short
      f secret senderBundle src amountLL) w) := by
  rw [exec_bind_of_ok (exec_ensureAuthenticated h.authenticated), exec_bind_of_ok (exec_secretValue h.secret_eq),
    exec_bind_of_ok (exec_getBundle h.bundle_eq), exec_bind_of_ok (h.tells token false)]
  have hasked : Quiet S w (w.asked S (.balance bundle token false)) := .ask _ rfl .refl
  cases hfound : ((told S w bundle token false).tokenWallet S.floatText).found with
  | false =>
    rw [exec_require_neg_bind (by decide)]
    exact ⟨hasked, _, rfl⟩
  | true =>
    rw [exec_bind_of_ok (exec_require_pos rfl)]
    cases hamount : toLongLong amount with
    | error e => exact ⟨hasked, e, rfl⟩
    | ok k =>
      rw [exec_bind_of_ok (Act.exec_ofExcept _ _), exec_require_neg_bind (not_le.mpr (hunfunded hfound k hamount))]
      exact ⟨hasked, _, rfl⟩

theorem World.Ready.transferTokens_withheld (h : w.Ready S secret bundle) {recipients : List TransferRecipient}
    (hunfunded : ((told S w bundle token false).tokenWallet S.floatText).found = true →
      ∀ ks, recipients.mapM (·.amountLL) = .ok ks →
        spendable ((told S w bundle token false).tokenWallet S.floatText).balance < ks.sum) :
    Withheld S w ((transferTokens S token recipients).exec w) := by
  have hasked : Quiet S w (w.asked S (.balance bundle token false)) := .ask _ rfl .refl
  rw [transferTokens, exec_bind_of_ok (exec_ensureAuthenticated h.authenticated), exec_bind_of_ok (exec_secretValue h.secret_eq),
    exec_bind_of_ok (exec_getBundle h.bundle_eq)]
  cases hamounts : recipientAmounts 0 recipients with
  | error e => exact ⟨.refl, e, rfl⟩
  | ok r =>
    obtain ⟨ks, hks, -, htotal, -⟩ := ValueOperation.recipientAmounts_ok (by norm_num) hamounts
    rw [zero_add] at htotal
    rw [exec_bind_of_ok (Act.exec_ofExcept _ _)]
    dsimp only
    rw [exec_bind_of_ok (h.tells token false)]
    cases hfound : ((told S w bundle token false).tokenWallet S.floatText).found with
    | false =>
      rw [exec_require_neg_bind (by decide)]
      exact ⟨hasked, _, rfl⟩
    | true =>
      rw [exec_bind_of_ok (exec_require_pos rfl), exec_require_neg_bind (not_le.mpr (htotal ▸ hunfunded hfound ks hks))]
      exact ⟨hasked, _, rfl⟩

end Spending

section Operations

variable {E : Type} {S : Setting E} {w : World E} {secret : Secret} {bundle : ByteString} {op : ValueOperation}

/-- An operation on a row that is not there, or that has less than the amounts, is not sent. -/
theorem ValueOperation.withheld (h : w.Ready S secret bundle) (hbuffer : op.buffer = false)
    (hunfunded : ((told S w bundle op.token false).tokenWallet S.floatText).found = true →
      ∀ ks, op.amounts = .ok ks → spendable ((told S w bundle op.token false).tokenWallet S.floatText).balance < ks.sum) :
    Withheld S w ((op.run S).exec w) := by
  have hsingle {amount : BinaryFloat.Value} {token : ByteString}
      (hshort : ((told S w bundle token false).tokenWallet S.floatText).found = true →
        ∀ ks, (toLongLong amount).map ([·]) = .ok ks →
          spendable ((told S w bundle token false).tokenWallet S.floatText).balance < ks.sum)
      (hfound : ((told S w bundle token false).tokenWallet S.floatText).found = true) (k : Int) (hk : toLongLong amount = .ok k) :
      spendable ((told S w bundle token false).tokenWallet S.floatText).balance < k := by
    simpa using hshort hfound [k] (by rw [hk]; rfl)
  cases op with
  | transferToken bundleHash token amount batchId units => exact h.withheld (hsingle hunfunded)
  | transferTokens token recipients => exact h.transferTokens_withheld hunfunded
  | burnToken token amount units => exact h.withheld (hsingle hunfunded)
  | depositBufferToken token amount tradeRates => exact h.withheld (hsingle hunfunded)
  | withdrawBufferToken token amount given => cases hbuffer

/-- An operation within a row of the client is sent where the balance is an `int`. -/
theorem ValueOperation.clears (h : w.Ready S secret bundle) (htoken : Plain op.token) (hbuffer : op.buffer = false)
    (hwritten : op.Written bundle) {ks : List Int} (hamounts : op.amounts = .ok ks) {balance : Nat}
    (hks : Molecule.Within balance ks)
    (hbalance : balance < 2 ^ 53)
    (hrow : ((told S w bundle op.token false).tokenWallet S.floatText).Backs S.hash w.client op.token balance) :
    Clears S w secret balance ks ((op.run S).exec w) := by
  cases op with
  | transferToken bundleHash token amount batchId units =>
    obtain ⟨k, hk, rfl⟩ := amounts_singleton hamounts
    exact h.transferToken_clears htoken hwritten.1 hwritten.2 hk hks hbalance hrow units
  | transferTokens token recipients => exact h.transferTokens_clears htoken hwritten hamounts hks hbalance hrow
  | burnToken token amount units =>
    obtain ⟨k, hk, rfl⟩ := amounts_singleton hamounts
    exact h.burnToken_clears htoken hk hks hbalance hrow units
  | depositBufferToken token amount tradeRates =>
    obtain ⟨k, hk, rfl⟩ := amounts_singleton hamounts
    exact h.depositBufferToken_clears htoken hk hks hbalance hwritten hrow
  | withdrawBufferToken token amount given => cases hbuffer

/-- What a reading of the balance says of a later operation: without a balance it is not sent; with a canonical
balance of a wallet of the client it is sent if and only if the balance covers the amounts and is an `int`. -/
theorem spends_what_it_reads (h : w.Ready S secret bundle) (htoken : Plain op.token) (hbuffer : op.buffer = false)
    (hwritten : op.Written bundle)
    (hsteady : told S (w.asked S (.balance bundle op.token false)) bundle op.token false = told S w bundle op.token false) :
    ∃ response u, (queryBalance S op.token none).exec w = (.ok response, u) ∧ Quiet S w u ∧
      match response.balance with
      | none => Withheld S u ((op.run S).exec u)
      | some b => ∀ balance ks, b.amount = Decimal.ofNat balance → balance < 2 ^ 53 →
          (∀ e, w.client.bindOwnWalletOtsVersion S.hash op.token b.position b.address ≠ .error e) →
          op.amounts = .ok ks → (∀ k ∈ ks, 0 ≤ k) →
            if ks.sum ≤ balance then Clears S u secret balance ks ((op.run S).exec u) else Withheld S u ((op.run S).exec u) := by
  refine ⟨_, _, h.queries op.token none, .ask _ rfl .refl, ?_⟩
  have hu := h.asked (.balance bundle op.token false)
  rw [Option.getD_none]
  by_cases hfound : ((told S w bundle op.token false).tokenWallet S.floatText).found = true
  · rw [if_pos hfound]
    intro balance ks hamount hbalance haccepted hamounts hnonneg
    split_ifs with hcovered
    · exact ValueOperation.clears hu htoken hbuffer hwritten hamounts ⟨hnonneg, hcovered⟩ hbalance
        (hsteady.symm ▸ ⟨hfound, hamount, haccepted⟩)
    · refine ValueOperation.withheld hu hbuffer fun _ ks' hks' => ?_
      obtain rfl := Except.ok.inj (hamounts.symm.trans hks')
      have hheld : ((told S w bundle op.token false).tokenWallet S.floatText).balance = Decimal.ofNat balance := hamount
      rw [hsteady, hheld, spendable_held balance hbalance]
      omega
  · rw [if_neg hfound]
    exact ValueOperation.withheld hu hbuffer fun hlater => absurd (hsteady ▸ hlater) hfound

/-- Seven tokens are read, of which five are spent. -/
theorem spends_what_it_reads_seven :
    ∃ response u b, (queryBalance scripted (ascii "T") none).exec (loginWorld [balanceReply "7" "[]", balanceReply "7" "[]"]) =
        (.ok response, u) ∧ response.balance = some b ∧ b.amount = ascii "7" ∧
      Clears scripted u sampleSecret 7 [5] (((ValueOperation.sampleTransfer 5).run scripted).exec u) := by
  have hready := ready_loginWorld [balanceReply "7" "[]", balanceReply "7" "[]"]
  have hreply : (balanceReply "7" "[]").tokenWallet integersOnly = sampleRow (ascii "7") [] := by decide +kernel
  have hread := hready.queries (ascii "T") none
  have htold :
      (told scripted (loginWorld [balanceReply "7" "[]", balanceReply "7" "[]"]) sampleBundle (ascii "T") false).tokenWallet
        scripted.floatText = sampleRow (ascii "7") [] := hreply
  simp only [Option.getD_none, htold] at hread
  obtain ⟨response, u, hresponse, -, hspend⟩ := @spends_what_it_reads _ _ _ _ _ (ValueOperation.sampleTransfer 5) hready
    ⟨rfl, show ascii "T" ≠ ascii "USER" by decide⟩ rfl ⟨rfl, rfl⟩ rfl
  obtain ⟨hsame, rfl⟩ := Prod.mk.inj (hread.symm.trans hresponse)
  obtain rfl := Except.ok.inj hsame
  have hclears := hspend 7 [5] rfl (by norm_num) (fun e he => ?_) (by decide) (by decide)
  · rw [if_pos (by decide)] at hclears
    exact ⟨_, _, _, hread, rfl, rfl, hclears⟩
  · cases (bindOwnWalletOtsVersion_sample (ascii "T")).symm.trans he

end Operations

end KnishIO
