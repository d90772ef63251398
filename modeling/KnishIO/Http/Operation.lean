import Mathlib.Data.List.TakeWhile
import KnishIO.Library.GraphQL
import KnishIO.Wallet

open ByteString

namespace KnishIO

namespace GraphQLClient

/-- A request; its `variables` and the name of the operation may be missing. -/
structure Request where
  query : ByteString
  vars : Option Json := none
  operationName : Option ByteString := none

/-- The members in the order of the assignments. -/
def Request.wireMembers (request : Request) : List (ByteString × Json) :=
  [(ascii "query", .str request.query)] ++ request.vars.toList.map (ascii "variables", ·) ++
    request.operationName.toList.map (ascii "operationName", .str ·)

def Request.toJsonString (request : Request) : Throws ByteString := dumpJson (Json.object request.wireMembers)

section ParseOperation

/-- `\w`. -/
def isWord (c : UInt8) : Bool := GraphQL.isNameContinue c

def keywords : List ByteString := [ascii "query", ascii "mutation", ascii "subscription"]

/-- Whether a text starts with a keyword, in any case, that ends at a word boundary. -/
def startsWithWord (word text : ByteString) : Bool :=
  (text.take word.length).map Wallet.toLower = word && !(text.drop word.length).head?.any isWord

/-- `\b(query|mutation|subscription)\b`, matched at the start of a text after the byte before it. -/
def matchKeyword (previous : Option UInt8) (text : ByteString) : Option ByteString :=
  if previous.any isWord then none else keywords.find? fun word => startsWithWord word text

def searchKeyword (previous : Option UInt8) : ByteString → Option ByteString
  | [] => none
  | c :: rest => (matchKeyword previous (c :: rest)).or (searchKeyword (some c) rest)

/-- `[A-Za-z_][A-Za-z0-9_]*`; empty where a text has none. -/
def searchName (text : ByteString) : ByteString :=
  (text.dropWhile fun c => !GraphQL.isNameStart c).takeWhile GraphQL.isNameContinue

/-- What follows the first brace. -/
def afterBrace (query : ByteString) : ByteString := (query.dropWhile (· ≠ 123)).drop 1

def parseOperation (query : ByteString) : ByteString × ByteString :=
  ((searchKeyword none query).getD (ascii "query"), searchName (afterBrace query))

/-- Whether the first atom of the variable `molecule` has the isotope of an authorization. -/
def authorizes (vars : Option Json) : Bool :=
  match vars.bind fun v => (v.find? (ascii "molecule")).bind fun molecule => molecule.find? (ascii "atoms") with
  | some (.arr (atom :: _)) => atom.stringAt "isotope" = some (ascii "U")
  | _ => false

def shouldEncryptRequest (request : Request) : Bool :=
  let (type, name) := parseOperation request.query
  if type = ascii "query" ∧ (name = ascii "__schema" ∨ name = ascii "ContinuId") then false
  else if type = ascii "mutation" ∧ name = ascii "AccessToken" then false
  else if type = ascii "mutation" ∧ name = ascii "ProposeMolecule" ∧ authorizes request.vars = true then false
  else true

theorem shouldEncryptRequest_eq_false {request : Request} :
    shouldEncryptRequest request = false ↔
      (parseOperation request.query).1 = ascii "query" ∧
          ((parseOperation request.query).2 = ascii "__schema" ∨ (parseOperation request.query).2 = ascii "ContinuId") ∨
        (parseOperation request.query).1 = ascii "mutation" ∧ ((parseOperation request.query).2 = ascii "AccessToken" ∨
          (parseOperation request.query).2 = ascii "ProposeMolecule" ∧ authorizes request.vars = true) := by
  unfold shouldEncryptRequest
  dsimp only
  split_ifs with hquery haccess hpropose
  · simp [hquery]
  · simp [haccess]
  · simp [hpropose]
  · simp only [false_iff]
    rintro (h | ⟨htype, hname | hname⟩)
    · exact hquery h
    · exact haccess ⟨htype, hname⟩
    · exact hpropose ⟨htype, hname⟩

end ParseOperation

section Scan

/-- A keyword stands after the bytes `before`, in any case and as a word of its own. -/
def KeywordAt (before rest word : ByteString) : Prop :=
  word ∈ keywords ∧ (∀ c ∈ before.getLast?, isWord c = false) ∧
    ∃ w after, rest = w ++ after ∧ w.map Wallet.toLower = word ∧ ∀ c ∈ after.head?, isWord c = false

/-- The first keyword anywhere in the text, or `query` where there is none. -/
def FirstKeyword (text word : ByteString) : Prop :=
  (∃ before rest, text = before ++ rest ∧ KeywordAt before rest word ∧
    ∀ before' rest' word', text = before' ++ rest' → KeywordAt before' rest' word' → before.length ≤ before'.length) ∨
  word = ascii "query" ∧ ∀ before rest word', text = before ++ rest → ¬ KeywordAt before rest word'

/-- The first name after the first brace of the text. -/
def FirstName (text name : ByteString) : Prop :=
  ∃ before gap after, text = before ++ 123 :: (gap ++ (name ++ after)) ∧ 123 ∉ before ∧
    (∀ c ∈ gap, GraphQL.isNameStart c = false) ∧ (∃ c rest, name = c :: rest ∧ GraphQL.isNameStart c = true) ∧
    (∀ c ∈ name, GraphQL.isNameContinue c = true) ∧ ∀ c ∈ after.head?, GraphQL.isNameContinue c = false

theorem startsWithWord_iff {word text : ByteString} :
    startsWithWord word text = true ↔
      ∃ w after, text = w ++ after ∧ w.map Wallet.toLower = word ∧ ∀ c ∈ after.head?, isWord c = false := by
  have hnot (after : ByteString) : (!after.head?.any isWord) = true ↔ ∀ c ∈ after.head?, isWord c = false := by
    cases after <;> simp
  constructor
  · intro h
    simp only [startsWithWord, Bool.and_eq_true, decide_eq_true_eq] at h
    exact ⟨_, _, (List.take_append_drop word.length text).symm, h.1, (hnot _).mp h.2⟩
  · rintro ⟨w, after, rfl, rfl, hafter⟩
    have htake : (w ++ after).take (w.map Wallet.toLower).length = w := by simp
    have hdrop : (w ++ after).drop (w.map Wallet.toLower).length = after := by simp
    simp only [startsWithWord, Bool.and_eq_true, decide_eq_true_eq, htake, hdrop]
    exact ⟨trivial, (hnot after).mpr hafter⟩

/-- No two keywords start alike. -/
theorem keyword_unique {word word' text : ByteString} (hword : word ∈ keywords) (hword' : word' ∈ keywords)
    (h : startsWithWord word text = true) (h' : startsWithWord word' text = true) : word = word' := by
  obtain ⟨w, after, rfl, hw, -⟩ := startsWithWord_iff.mp h
  obtain ⟨w', after', htext, hw', -⟩ := startsWithWord_iff.mp h'
  have hhead : word.head? = word'.head? := by
    have hne : w ≠ [] := by
      rintro rfl
      subst hw
      simp [keywords, ascii] at hword
    have hne' : w' ≠ [] := by
      rintro rfl
      subst hw'
      simp [keywords, ascii] at hword'
    obtain ⟨c, t, rfl⟩ := List.exists_cons_of_ne_nil hne
    obtain ⟨c', t', rfl⟩ := List.exists_cons_of_ne_nil hne'
    have hc : c = c' := (List.cons.inj htext).1
    rw [← hw, ← hw', hc, List.map_cons, List.map_cons, List.head?_cons, List.head?_cons]
  have hdistinct : ∀ a ∈ keywords, ∀ b ∈ keywords, a.head? = b.head? → a = b := by decide
  exact hdistinct word hword word' hword' hhead

theorem matchKeyword_iff {before text word : ByteString} :
    matchKeyword before.getLast? text = some word ↔ KeywordAt before text word := by
  have hbefore : before.getLast?.any isWord = false ↔ ∀ c ∈ before.getLast?, isWord c = false := by
    cases before.getLast? <;> simp
  unfold matchKeyword
  constructor
  · intro h
    split at h
    · cases h
    · rename_i hword
      have hstarts := List.find?_some h
      exact ⟨List.mem_of_find?_eq_some h, hbefore.mp (Bool.eq_false_of_not_eq_true hword),
        startsWithWord_iff.mp hstarts⟩
  · rintro ⟨hmem, hprevious, hstarts⟩
    rw [if_neg (by simp [hbefore.mpr hprevious])]
    have hword := startsWithWord_iff.mpr hstarts
    cases hfind : keywords.find? fun word => startsWithWord word text with
    | none => exact absurd hword (by simpa using List.find?_eq_none.mp hfind word hmem)
    | some word' =>
      have hfound : startsWithWord word' text = true := List.find?_some (p := fun word => startsWithWord word text) hfind
      rw [keyword_unique hmem (List.mem_of_find?_eq_some hfind) hword hfound]

theorem not_keywordAt_nil {before word : ByteString} : ¬ KeywordAt before [] word := by
  rintro ⟨hmem, _, w, after, hnil, hw, _⟩
  obtain ⟨rfl, rfl⟩ := List.append_eq_nil_iff.mp hnil.symm
  subst hw
  simp [keywords, ascii] at hmem

/-- A search finds the first keyword after the bytes that were passed. -/
theorem searchKeyword_some {before text word : ByteString} (h : searchKeyword before.getLast? text = some word) :
    ∃ passed rest, text = passed ++ rest ∧ KeywordAt (before ++ passed) rest word ∧
      ∀ passed' rest' word', text = passed' ++ rest' → KeywordAt (before ++ passed') rest' word' →
        passed.length ≤ passed'.length := by
  induction text generalizing before with
  | nil => cases h
  | cons c rest ih =>
    rw [searchKeyword] at h
    cases hhere : matchKeyword before.getLast? (c :: rest) with
    | some word' =>
      rw [hhere, Option.some_or] at h
      obtain rfl := Option.some.inj h
      exact ⟨[], c :: rest, rfl, by simpa using matchKeyword_iff.mp hhere, by simp⟩
    | none =>
      rw [hhere, Option.none_or] at h
      have hnext : searchKeyword (before ++ [c]).getLast? rest = some word := by simpa using h
      obtain ⟨passed, rest', hrest, hkeyword, hfirst⟩ := ih hnext
      refine ⟨c :: passed, rest', by rw [hrest, List.cons_append], by simpa using hkeyword, ?_⟩
      intro passed' rest'' word' htext hkeyword'
      cases passed' with
      | nil =>
        obtain rfl : c :: rest = rest'' := htext
        rw [List.append_nil] at hkeyword'
        rw [matchKeyword_iff.mpr hkeyword'] at hhere
        cases hhere
      | cons c' passed' =>
        obtain ⟨rfl, htail⟩ := List.cons.inj htext
        have := hfirst passed' rest'' word' htail (by simpa using hkeyword')
        simpa using this

theorem searchKeyword_none {before text : ByteString} (h : searchKeyword before.getLast? text = none) :
    ∀ passed rest word, text = passed ++ rest → ¬ KeywordAt (before ++ passed) rest word := by
  induction text generalizing before with
  | nil =>
    intro passed rest word htext
    obtain ⟨rfl, rfl⟩ := List.append_eq_nil_iff.mp htext.symm
    exact not_keywordAt_nil
  | cons c rest ih =>
    rw [searchKeyword, Option.or_eq_none_iff] at h
    have hnext : searchKeyword (before ++ [c]).getLast? rest = none := by simpa using h.2
    intro passed rest' word htext hkeyword
    cases passed with
    | nil =>
      obtain rfl : c :: rest = rest' := htext
      rw [List.append_nil] at hkeyword
      rw [matchKeyword_iff.mpr hkeyword] at h
      cases h.1
    | cons c' passed =>
      obtain ⟨rfl, htail⟩ := List.cons.inj htext
      exact ih hnext passed rest' word htail (by simpa using hkeyword)

/-- The type that the light parse reads is the first keyword. -/
theorem firstKeyword_iff {text word : ByteString} : FirstKeyword text word ↔ (parseOperation text).1 = word := by
  have hexists : FirstKeyword text (parseOperation text).1 := by
    cases hsearch : searchKeyword none text with
    | some found =>
      obtain ⟨passed, rest, htext, hkeyword, hfirst⟩ := @searchKeyword_some [] _ _ hsearch
      rw [parseOperation, hsearch]
      exact .inl ⟨passed, rest, htext, hkeyword, hfirst⟩
    | none =>
      rw [parseOperation, hsearch]
      exact .inr ⟨rfl, @searchKeyword_none [] _ hsearch⟩
  refine ⟨fun h => ?_, fun h => h ▸ hexists⟩
  rcases hexists with ⟨before, rest, htext, hkeyword, hfirst⟩ | ⟨hquery, hnone⟩
  · rcases h with ⟨before', rest', htext', hkeyword', hfirst'⟩ | ⟨-, hnone⟩
    · have hlength : before.length = before'.length :=
        le_antisymm (hfirst _ _ _ htext' hkeyword') (hfirst' _ _ _ htext hkeyword)
      obtain ⟨rfl, rfl⟩ := List.append_inj (htext.symm.trans htext') hlength
      exact Option.some.inj ((matchKeyword_iff.mpr hkeyword).symm.trans (matchKeyword_iff.mpr hkeyword'))
    · exact absurd hkeyword (hnone _ _ _ htext)
  · rcases h with ⟨before', rest', htext', hkeyword', -⟩ | ⟨rfl, -⟩
    · exact absurd hkeyword' (hnone _ _ _ htext')
    · exact hquery

/-- The name that the light parse reads, where it reads one, is the first name after the first brace. -/
theorem firstName_iff {text name : ByteString} : FirstName text name ↔ (parseOperation text).2 = name ∧ name ≠ [] := by
  constructor
  · rintro ⟨before, gap, after, rfl, hbefore, hgap, ⟨c, rest, rfl, hc⟩, hname, hafter⟩
    refine ⟨?_, List.cons_ne_nil _ _⟩
    have hbrace : afterBrace (before ++ 123 :: (gap ++ (c :: rest ++ after))) = gap ++ (c :: rest ++ after) := by
      rw [afterBrace, List.dropWhile_append_of_pos (by
        intro b hb
        simpa using fun h : b = 123 => hbefore (h ▸ hb))]
      rfl
    have hgapped : (gap ++ (c :: rest ++ after)).dropWhile (fun c => !GraphQL.isNameStart c) = c :: rest ++ after := by
      rw [List.dropWhile_append_of_pos (by simpa using hgap)]
      simp [hc]
    have hend : after.takeWhile GraphQL.isNameContinue = [] := by
      cases after with
      | nil => rfl
      | cons a after => simp [hafter a rfl]
    rw [parseOperation, hbrace, searchName, hgapped, List.takeWhile_append_of_pos hname, hend, List.append_nil]
  · rintro ⟨rfl, hne⟩
    have hrest : afterBrace text ≠ [] := by
      intro hnil
      exact hne (by rw [parseOperation, hnil]; rfl)
    have hopen : text.dropWhile (· ≠ 123) = 123 :: afterBrace text := by
      cases hdrop : text.dropWhile (· ≠ 123) with
      | nil => exact absurd (by rw [afterBrace, hdrop, List.drop_nil]) hrest
      | cons b rest =>
        have hb : b = 123 := by
          have hhead := List.head?_dropWhile_not (fun c : UInt8 => decide (c ≠ 123)) text
          rw [hdrop] at hhead
          simpa using hhead
        rw [afterBrace, hdrop, hb, List.drop_succ_cons, List.drop_zero]
    set scanned := (afterBrace text).dropWhile fun c => !GraphQL.isNameStart c with hscanned
    have hname : (parseOperation text).2 = scanned.takeWhile GraphQL.isNameContinue := rfl
    refine ⟨text.takeWhile (· ≠ 123), (afterBrace text).takeWhile fun c => !GraphQL.isNameStart c,
      scanned.dropWhile GraphQL.isNameContinue, ?_, ?_, ?_, ?_, ?_, ?_⟩
    · rw [hname, List.takeWhile_append_dropWhile, hscanned, List.takeWhile_append_dropWhile, ← hopen,
        List.takeWhile_append_dropWhile]
    · intro hmem
      simpa using List.mem_takeWhile_imp hmem
    · intro c hc
      simpa using List.mem_takeWhile_imp hc
    · cases hstart : scanned with
      | nil => exact absurd (by rw [hname, hstart]; rfl) hne
      | cons c rest =>
        have hc : GraphQL.isNameStart c = true := by
          have hhead := List.head?_dropWhile_not (fun c => !GraphQL.isNameStart c) (afterBrace text)
          rw [← hscanned, hstart] at hhead
          simpa using hhead
        have hcontinue : GraphQL.isNameContinue c = true := by simp [GraphQL.isNameContinue, hc]
        exact ⟨c, rest.takeWhile GraphQL.isNameContinue, by rw [hname, hstart, List.takeWhile_cons_of_pos hcontinue], hc⟩
    · intro c hc
      exact List.mem_takeWhile_imp hc
    · intro c hc
      have hhead := List.head?_dropWhile_not GraphQL.isNameContinue scanned
      rw [Option.mem_def.mp hc] at hhead
      exact hhead

end Scan

end GraphQLClient

end KnishIO
