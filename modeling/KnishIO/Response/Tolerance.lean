import KnishIO.Response.Parsing

open ByteString

namespace KnishIO

namespace Response

/-- The fields of a reply that stand for a string. -/
def stringFields : List ByteString :=
  [ascii "address", ascii "bundleHash", ascii "tokenSlug", ascii "token", ascii "amount", ascii "balance", ascii "position",
    ascii "batchId", ascii "pubkey", ascii "id", ascii "name", ascii "molecularHash", ascii "status", ascii "reason",
    ascii "payload"]

/-- A field that counts as absent: null, or no string where a string is expected. -/
def absent (key : ByteString) (value : Json) : Bool := value.isNull || stringFields.contains key && !value.isString

/-- The data without the fields that count as absent. -/
def cleared (data : Json) : Json := data.prune absent

/-- The reading returns, and returns the same without the fields that count as absent. -/
def Tolerates {α : Type} (read : Json → Throws α) (data : Json) : Prop :=
  ∃ r, read data = .ok r ∧ read (cleared data) = .ok r

/-- Every class of responses tolerates the data, whatever slug and amount a token creation stored, and the reading of an
authorization tolerates its payload. -/
structure ReadByAll (F : Json.FloatText) (data : Json) : Prop where
  balance : Tolerates ResponseBalance.parseData data
  walletList : Tolerates ResponseWalletList.parseData data
  continuId : Tolerates ResponseContinuId.parseData data
  created : Tolerates ResponseCreateToken.isCreated data ∧
    ∀ stored, Tolerates (ResponseCreateToken.getTokenSlug stored) data ∧ Tolerates (ResponseCreateToken.getAmount stored) data
  transferred : Tolerates ResponseTransferTokens.isTransferred data ∧
    Tolerates ResponseTransferTokens.getTransactionHash data ∧ Tolerates ResponseTransferTokens.getAmount data
  authorized : Tolerates (ResponseRequestAuthorization.getAuthToken F) data ∧
    Tolerates (ResponseRequestAuthorization.getPublicKey F) data ∧ Tolerates (ResponseRequestAuthorization.isAuthorized F) data
  payload : ∃ payload, ResponseRequestAuthorization.parseProposePayload F data = .ok payload ∧
    Tolerates (guardedString · "token") payload ∧ Tolerates (guardedString · "pubkey") payload
  proposed : Tolerates ResponseProposeMolecule.getMolecularHash data ∧ Tolerates ResponseProposeMolecule.getStatus data ∧
    Tolerates ResponseProposeMolecule.isAccepted data ∧ Tolerates ResponseProposeMolecule.getRejectionReason data

/-- The fields that are converted without a guard are strings wherever they are there, and no null hides older rows. -/
structure Plain (data : Json) : Prop where
  balance : ∀ row, data.find? (ascii "Balance") = some row → ResponseBalance.StringFields row
  status : ∀ proposal status, data.find? (ascii "ProposeMolecule") = some proposal →
    proposal.find? (ascii "status") = some status → status.isString = true
  rows : ∀ rows, data.find? (ascii "wallets") = some .null → data.find? (ascii "WalletList") = some (.arr rows) → rows = []

section Cleared

variable {data : Json}

theorem not_absent_str (key s : ByteString) : absent key (.str s) = false := by
  simp [absent, Json.isNull, Json.isString]

theorem isString_of_not_absent {key : ByteString} {value : Json} (hkey : key ∈ stringFields) (h : absent key value = false) :
    value.isString = true := by
  simp [absent, hkey] at h
  exact h.2

theorem absent_of_ne {key : ByteString} (hkey : key ∉ stringFields) (value : Json) : absent key value = value.isNull := by
  simp [absent, hkey]

theorem stringAt_cleared (hdata : data.Keyed) (key : String) : (cleared data).stringAt key = data.stringAt key :=
  Json.stringAt_prune not_absent_str hdata key

/-- A member that stands for no string is kept unless it is null. -/
theorem find?_cleared (hdata : data.Keyed) {key : String} (hkey : ascii key ∉ stringFields) :
    (cleared data).find? (ascii key) =
      (data.find? (ascii key)).bind fun value => if value.isNull then none else some (cleared value) := by
  rw [cleared, Json.find?_prune hdata]
  cases data.find? (ascii key) with
  | none => rfl
  | some value =>
    rw [Option.bind_some, Option.bind_some, absent_of_ne hkey]
    rfl

/-- What is left under a key that stands for a string is a string. -/
theorem isString_cleared (hdata : data.Keyed) {key : String} (hkey : ascii key ∈ stringFields) {value : Json}
    (h : (cleared data).find? (ascii key) = some value) : value.isString = true := by
  rw [cleared, Json.find?_prune hdata] at h
  obtain ⟨v, -, h⟩ := Option.bind_eq_some_iff.mp h
  split_ifs at h with habsent
  obtain rfl := Option.some.inj h
  have := isString_of_not_absent hkey (by simpa using habsent)
  cases v with
  | str s => rfl
  | _ => cases this

theorem convertedString_cleared (hdata : data.Keyed) {key : String} (hkey : ascii key ∈ stringFields) :
    convertedString (cleared data) key = .ok (data.stringAt key) :=
  convertedString_ok_iff.mpr ⟨fun _ h => isString_cleared hdata hkey h, (stringAt_cleared hdata key).symm⟩

theorem parseTokenUnit_cleared (hdata : data.Keyed) : parseTokenUnit (cleared data) = parseTokenUnit data := by
  have hmetas : ascii "metas" ∉ stringFields := by decide
  rw [parseTokenUnit, parseTokenUnit, stringAt_cleared hdata, stringAt_cleared hdata, find?_cleared hdata hmetas]
  cases data.find? (ascii "metas") with
  | none => rfl
  | some metas =>
    cases metas with
    | obj members =>
      congr 1
      exact Json.strings_pruneMembers not_absent_str members
    | _ => rfl

theorem parseWalletTokenUnits_cleared (hdata : data.Keyed) :
    parseWalletTokenUnits (cleared data) = parseWalletTokenUnits data := by
  have hunits : ascii "tokenUnits" ∉ stringFields := by decide
  rw [parseWalletTokenUnits, parseWalletTokenUnits, find?_cleared hdata hunits]
  cases hfound : data.find? (ascii "tokenUnits") with
  | none => rfl
  | some units =>
    cases units with
    | arr items =>
      have hitems := (Json.keyedItems_iff items).mp (hdata.find? hfound)
      simp only [Option.bind_some, Json.isNull, Bool.false_eq_true, ↓reduceIte, cleared, Json.prune, Json.pruneItems_eq,
        List.map_map]
      exact List.map_congr_left fun u hu => parseTokenUnit_cleared (hitems u hu)
    | _ => rfl

theorem characterStrings_cleared (hdata : data.Keyed) :
    ResponseBalance.characterStrings ((cleared data).find? (ascii "characters")) =
      ResponseBalance.characterStrings (data.find? (ascii "characters")) := by
  have hcharacters : ascii "characters" ∉ stringFields := by decide
  rw [find?_cleared hdata hcharacters]
  cases data.find? (ascii "characters") with
  | none => rfl
  | some chars =>
    cases chars with
    | arr items =>
      simp only [Option.bind_some, Json.isNull, Bool.false_eq_true, ↓reduceIte, cleared, Json.prune, Json.pruneItems_eq,
        ResponseBalance.characterStrings, List.filterMap_map]
      exact List.filterMap_congr fun item _ => Json.string?_prune item
    | _ => rfl

theorem reading_balance_cleared (hdata : data.Keyed) : ResponseBalance.reading (cleared data) = ResponseBalance.reading data := by
  simp only [ResponseBalance.reading, stringAt_cleared hdata, characterStrings_cleared hdata, parseWalletTokenUnits_cleared hdata]

theorem reading_wallet_cleared (hdata : data.Keyed) :
    ResponseWalletList.reading (cleared data) = ResponseWalletList.reading data := by
  simp only [ResponseWalletList.reading, stringAt_cleared hdata, parseWalletTokenUnits_cleared hdata]

theorem rowReadings_cleared (hdata : data.Keyed) {key : String} (hkey : ascii key ∉ stringFields) :
    ResponseWalletList.rowReadings ((cleared data).find? (ascii key)) =
      ResponseWalletList.rowReadings (data.find? (ascii key)) := by
  rw [find?_cleared hdata hkey]
  cases hfound : data.find? (ascii key) with
  | none => rfl
  | some rows =>
    cases rows with
    | arr items =>
      have hitems := (Json.keyedItems_iff items).mp (hdata.find? hfound)
      simp only [Option.bind_some, Json.isNull, Bool.false_eq_true, ↓reduceIte, cleared, Json.prune, Json.pruneItems_eq,
        ResponseWalletList.rowReadings, List.map_map]
      exact List.map_congr_left fun row hrow => reading_wallet_cleared (hitems row hrow)
    | _ => rfl

theorem continuId_cleared (hdata : data.Keyed) : continuId (cleared data) = continuId data := by
  have hkey : ascii "ContinuId" ∉ stringFields := by decide
  rw [continuId, continuId, find?_cleared hdata hkey]
  cases hfound : data.find? (ascii "ContinuId") with
  | none => rfl
  | some continuData =>
    have hrow := hdata.find? hfound
    cases continuData with
    | obj members =>
      simp only [Option.bind_some, Json.isNull, Bool.false_eq_true, ↓reduceIte, stringAt_cleared hrow]
      rfl
    | _ => rfl

theorem proposeMember_cleared (hdata : data.Keyed) (key : String) :
    proposeMember (cleared data) key = proposeMember data key := by
  have hpropose : ascii "ProposeMolecule" ∉ stringFields := by decide
  rw [proposeMember, proposeMember, find?_cleared hdata hpropose]
  cases hfound : data.find? (ascii "ProposeMolecule") with
  | none => rfl
  | some proposal =>
    rw [Option.bind_some, Option.bind_some]
    cases hnull : proposal.isNull with
    | true =>
      cases proposal with
      | null => rfl
      | _ => cases hnull
    | false => exact stringAt_cleared (hdata.find? hfound) key

theorem parseProposePayload_cleared (F : Json.FloatText) (hdata : data.Keyed) :
    parseProposePayload F (cleared data) = parseProposePayload F data := by
  rw [parseProposePayload, parseProposePayload, proposeMember_cleared hdata]

theorem keyed_parseProposePayload (F : Json.FloatText) (data : Json) : (parseProposePayload F data).Keyed := by
  rw [parseProposePayload]
  cases proposeMember data "payload" with
  | none => exact ⟨.nil, trivial⟩
  | some payload =>
    cases hparse : Json.parse F payload with
    | none =>
      simp only [hparse]
      exact ⟨.nil, trivial⟩
    | some value =>
      simp only [hparse]
      exact (Json.parse_valid hparse).keyed

end Cleared

section Classes

variable {data : Json}

/-- A reading that always returns tolerates the data where it returns the same without the absent fields. -/
theorem Tolerates.of_eq {α : Type} {read : Json → Throws α} {f : Json → α} (hread : ∀ d, read d = .ok (f d))
    (hcleared : f (cleared data) = f data) : Tolerates read data :=
  ⟨f data, hread data, (hread (cleared data)).trans (congrArg Except.ok hcleared)⟩

theorem tolerates_guardedString (hdata : data.Keyed) (key : String) : Tolerates (guardedString · key) data :=
  .of_eq (fun row => guardedString_eq row key) (stringAt_cleared hdata key)

theorem tolerates_balance_iff (hdata : data.Keyed) : Tolerates ResponseBalance.parseData data ↔
    ∀ row, data.find? (ascii "Balance") = some row → ResponseBalance.StringFields row := by
  have hkey : ascii "Balance" ∉ stringFields := by decide
  have hconverted : ∀ key ∈ ResponseBalance.converted, ascii key ∈ stringFields := by decide
  constructor
  · rintro ⟨r, hread, -⟩ row hrow
    rw [ResponseBalance.parseData, hrow] at hread
    cases hnull : row.isNull with
    | true =>
      cases row with
      | null => exact fun _ _ _ h => by cases h
      | _ => cases hnull
    | false =>
      simp only [hnull, Bool.false_eq_true, ↓reduceIte] at hread
      cases hparse : ResponseBalance.parseRow row with
      | error e =>
        rw [hparse] at hread
        cases hread
      | ok b => exact ResponseBalance.stringFields_of_parseRow hparse
  · intro hrows
    rw [Tolerates, ResponseBalance.parseData, ResponseBalance.parseData, find?_cleared hdata hkey]
    cases hfound : data.find? (ascii "Balance") with
    | none => exact ⟨none, rfl, rfl⟩
    | some row =>
      have hrow := hdata.find? hfound
      cases hnull : row.isNull with
      | true => exact ⟨none, by simp [hnull], by simp [hnull]⟩
      | false =>
        have hclearedFields : ResponseBalance.StringFields (cleared row) := fun key hkey _ h =>
          isString_cleared hrow (hconverted key hkey) h
        have hclearedNull : (cleared row).isNull = false := (Json.isNull_prune row).trans hnull
        refine ⟨some (ResponseBalance.reading row), ?_, ?_⟩
        · simp only [hnull, Bool.false_eq_true, ↓reduceIte, ResponseBalance.parseRow_eq (hrows row hfound)]
          rfl
        · simp only [Option.bind_some, hnull, hclearedNull, Bool.false_eq_true, ↓reduceIte,
            ResponseBalance.parseRow_eq hclearedFields, reading_balance_cleared hrow]
          rfl

theorem tolerates_walletList_iff (hdata : data.Keyed) : Tolerates ResponseWalletList.parseData data ↔
    ∀ rows, data.find? (ascii "wallets") = some .null → data.find? (ascii "WalletList") = some (.arr rows) → rows = [] := by
  have hwallets : ascii "wallets" ∉ stringFields := by decide
  have holder : ascii "WalletList" ∉ stringFields := by decide
  have htolerates : Tolerates ResponseWalletList.parseData data ↔
      ResponseWalletList.rowReadings ((cleared data).find? (ascii (ResponseWalletList.rowsKey (cleared data)))) =
        ResponseWalletList.rowReadings (data.find? (ascii (ResponseWalletList.rowsKey data))) := by
    simp only [Tolerates, ResponseWalletList.parseData_eq, Except.ok.injEq]
    exact ⟨fun ⟨_, h, h'⟩ => h'.trans h.symm, fun h => ⟨_, rfl, h⟩⟩
  rw [htolerates, ResponseWalletList.rowsKey, ResponseWalletList.rowsKey, Json.contains, Json.contains,
    find?_cleared hdata hwallets]
  cases hfound : data.find? (ascii "wallets") with
  | none =>
    have hsame := rowReadings_cleared hdata holder
    simpa using hsame
  | some rows =>
    cases hnull : rows.isNull with
    | false =>
      have hsame := rowReadings_cleared hdata hwallets
      have hne : rows ≠ .null := by
        rintro rfl
        cases hnull
      simpa [hnull, hne] using hsame
    | true =>
      obtain rfl : rows = .null := by
        cases rows with
        | null => rfl
        | _ => cases hnull
      -- the null hides the older rows, which are read once it is gone
      have hsame := rowReadings_cleared hdata holder
      simp only [Option.bind_some, hnull, ↓reduceIte, Option.isSome_none, Bool.false_eq_true, Option.isSome_some, hfound,
        hsame, true_implies]
      cases holderFound : data.find? (ascii "WalletList") with
      | none => simp [ResponseWalletList.rowReadings]
      | some older =>
        cases older with
        | arr items => simp [ResponseWalletList.rowReadings]
        | _ => simp [ResponseWalletList.rowReadings]

theorem tolerates_isCreated_iff (hdata : data.Keyed) : Tolerates ResponseCreateToken.isCreated data ↔
    ∀ proposal status, data.find? (ascii "ProposeMolecule") = some proposal →
      proposal.find? (ascii "status") = some status → status.isString = true := by
  have hkey : ascii "ProposeMolecule" ∉ stringFields := by decide
  have hstatus : ascii "status" ∈ stringFields := by decide
  constructor
  · rintro ⟨r, hread, -⟩ proposal status hproposal
    rw [ResponseCreateToken.isCreated, hproposal] at hread
    obtain ⟨_, hconverted, -⟩ := Throws.bind_ok hread
    exact (convertedString_ok_iff.mp hconverted).1 status
  · intro hstrings
    rw [Tolerates, ResponseCreateToken.isCreated, ResponseCreateToken.isCreated, find?_cleared hdata hkey]
    cases hfound : data.find? (ascii "ProposeMolecule") with
    | none => exact ⟨false, rfl, rfl⟩
    | some proposal =>
      have hread := convertedString_ok_iff.mpr ⟨fun status h => hstrings proposal status hfound h, rfl⟩
      refine ⟨((proposal.stringAt "status").map acceptingStatus).getD false, Throws.bind_of_ok hread _, ?_⟩
      cases hnull : proposal.isNull with
      | true =>
        cases proposal with
        | null => rfl
        | _ => cases hnull
      | false =>
        simp only [Option.bind_some, hnull, Bool.false_eq_true, ↓reduceIte]
        exact Throws.bind_of_ok (convertedString_cleared (hdata.find? hfound) hstatus) _

/-- Every class of responses returns on the data and reads null and non-string fields as absent exactly where the
unguarded fields are strings and no null hides older rows. -/
theorem readByAll_iff (F : Json.FloatText) (hdata : data.Keyed) : ReadByAll F data ↔ Plain data := by
  have hmember := proposeMember_cleared hdata
  have hpayload := parseProposePayload_cleared F hdata
  constructor
  · intro h
    exact ⟨(tolerates_balance_iff hdata).mp h.balance, (tolerates_isCreated_iff hdata).mp h.created.1,
      (tolerates_walletList_iff hdata).mp h.walletList⟩
  · intro h
    have hauthToken : getAuthToken F (cleared data) = getAuthToken F data := by rw [getAuthToken, getAuthToken, hpayload]
    have hstatus : getStatus (cleared data) = getStatus data := by rw [getStatus, getStatus, hmember]
    exact {
      balance := (tolerates_balance_iff hdata).mpr h.balance
      walletList := (tolerates_walletList_iff hdata).mpr h.rows
      continuId := .of_eq ResponseContinuId.parseData_eq (continuId_cleared hdata)
      created := ⟨(tolerates_isCreated_iff hdata).mpr h.status, fun stored =>
        ⟨.of_eq (fun _ => rfl) rfl, .of_eq (fun _ => rfl) rfl⟩⟩
      transferred := ⟨.of_eq ResponseTransferTokens.isTransferred_eq (by rw [hmember]),
        .of_eq ResponseTransferTokens.getTransactionHash_eq (by rw [hmember]), .of_eq (fun _ => rfl) rfl⟩
      authorized := ⟨.of_eq (ResponseRequestAuthorization.getAuthToken_eq F) hauthToken,
        .of_eq (ResponseRequestAuthorization.getPublicKey_eq F) (by rw [hpayload]),
        .of_eq (ResponseRequestAuthorization.isAuthorized_eq F) (by rw [isAuthorized, isAuthorized, hauthToken])⟩
      payload := ⟨_, ResponseRequestAuthorization.parseProposePayload_eq F data,
        tolerates_guardedString (keyed_parseProposePayload F data) "token",
        tolerates_guardedString (keyed_parseProposePayload F data) "pubkey"⟩
      proposed := ⟨.of_eq ResponseProposeMolecule.getMolecularHash_eq (by rw [hmember]),
        .of_eq ResponseProposeMolecule.getStatus_eq hstatus,
        .of_eq ResponseProposeMolecule.isAccepted_eq (by rw [isAccepted, isAccepted, hstatus]),
        .of_eq ResponseProposeMolecule.getRejectionReason_eq (by rw [hmember])⟩ }

/-- An accepted molecule, whose reason is null. -/
def acceptedProposal : Json :=
  .obj [(ascii "ProposeMolecule", .obj [(ascii "reason", .null), (ascii "status", .str (ascii "accepted"))])]

theorem readByAll_acceptedProposal : ReadByAll integersOnly acceptedProposal := by
  have hkeyed : acceptedProposal.Keyed := by
    refine ⟨List.pairwise_singleton _ _, ⟨?_, trivial, trivial, trivial⟩, trivial⟩
    rw [Json.Sorted]
    decide
  refine (readByAll_iff integersOnly hkeyed).mpr ⟨?_, ?_, ?_⟩
  · intro row h
    cases h
  · intro proposal status hproposal hstatus
    obtain rfl := Option.some.inj hproposal
    obtain rfl := Option.some.inj hstatus
    rfl
  · intro rows h
    cases h

/-- A shadow wallet, which has neither a position nor an address yet. -/
def shadowBalance : Json :=
  .obj [(ascii "Balance", .obj [(ascii "address", .null), (ascii "position", .null), (ascii "tokenSlug", .str (ascii "T"))])]

/-- The row of a shadow wallet throws, and so does a created token whose status is null; a null member hides older
rows. -/
theorem shadowBalance_throws :
    ResponseBalance.parseData shadowBalance = .error .jsonType ∧
    ResponseCreateToken.isCreated (.obj [(ascii "ProposeMolecule", .obj [(ascii "status", .null)])]) = .error .jsonType ∧
    ¬ Tolerates ResponseWalletList.parseData (.obj [(ascii "WalletList", .arr [.null]), (ascii "wallets", .null)]) ∧
    ¬ ∀ data : Json, data.Keyed → ReadByAll integersOnly data := by
  have hkeyed : shadowBalance.Keyed := by
    refine ⟨List.pairwise_singleton _ _, ⟨?_, trivial, trivial, trivial, trivial⟩, trivial⟩
    rw [Json.Sorted]
    decide
  refine ⟨rfl, rfl, ?_, fun hclaim => ?_⟩
  · rintro ⟨r, h, h'⟩
    obtain rfl := Except.ok.inj h
    cases h'
  · obtain ⟨r, h, -⟩ := (hclaim shadowBalance hkeyed).balance
    cases h

end Classes

end Response

end KnishIO
