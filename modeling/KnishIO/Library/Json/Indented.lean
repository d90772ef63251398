import KnishIO.Library.Json.RoundTrip

open ByteString

namespace Json

/-- A line break with the blanks after it. -/
def newline (level : Nat) : ByteString := 10 :: List.replicate level 32

mutual

/-- The text of a value that stands `level` blanks deep; an empty container is written as in the compact
text. -/
def indented (step level : Nat) : Json → ByteString
  | .arr [] => [91, 93]
  | .arr (j :: items) => 91 :: (indentedItems step (level + step) (j :: items) ++ (newline level ++ [93]))
  | .obj [] => [123, 125]
  | .obj (m :: ms) => 123 :: (indentedMembers step (level + step) (m :: ms) ++ (newline level ++ [125]))
  | scalar => scalar.text

def indentedItems (step level : Nat) : List Json → ByteString
  | [] => []
  | [j] => newline level ++ indented step level j
  | j :: k :: rest => newline level ++ (indented step level j ++ 44 :: indentedItems step level (k :: rest))

def indentedMembers (step level : Nat) : List (ByteString × Json) → ByteString
  | [] => []
  | [(key, v)] => newline level ++ (quote key ++ 58 :: 32 :: indented step level v)
  | (key, v) :: m :: rest =>
    newline level ++ (quote key ++ 58 :: 32 :: (indented step level v ++ 44 :: indentedMembers step level (m :: rest)))

end

/-- `dump(step)`; `none` stands for the `type_error` of a string that is not UTF-8. -/
def dumpIndented (step : Nat) (j : Json) : Option ByteString := if j.utf8 then some (j.indented step 0) else none

section WhiteSpace

variable {F : FloatText}

theorem skipWs_of_isWs {c : UInt8} (hc : isWs c = true) (s : ByteString) : skipWs (c :: s) = skipWs s :=
  List.dropWhile_cons_of_pos hc

theorem skipWs_newline (level : Nat) (s : ByteString) : skipWs (newline level ++ s) = skipWs s := by
  have hblanks : skipWs (List.replicate level 32 ++ s) = skipWs s := by
    induction level with
    | zero => rfl
    | succ level ih =>
      rw [List.replicate_succ, List.cons_append, skipWs_of_isWs (by decide)]
      exact ih
  rw [newline, List.cons_append, skipWs_of_isWs (by decide)]
  exact hblanks

theorem skipWs_skipWs (s : ByteString) : skipWs (skipWs s) = skipWs s := by
  induction s with
  | nil => rfl
  | cons c s ih =>
    by_cases hc : isWs c = true
    · rw [skipWs_of_isWs hc]
      exact ih
    · rw [skipWs_cons (eq_false_of_ne_true hc), skipWs_cons (eq_false_of_ne_true hc)]

/-- White space before a value makes no difference. -/
theorem parseValue_congr {n : Nat} {s t : ByteString} (h : skipWs s = skipWs t) : parseValue F n s = parseValue F n t := by
  cases n with
  | zero => rfl
  | succ n => rw [parseValue, parseValue, h]

theorem parseItems_congr {n : Nat} {acc : List Json} {s t : ByteString} (h : skipWs s = skipWs t) :
    parseItems F n acc s = parseItems F n acc t := by
  cases n with
  | zero => rfl
  | succ n => rw [parseItems, parseItems, parseValue_congr h]

theorem parseMembers_congr {n : Nat} {acc : List (ByteString × Json)} {s t : ByteString} (h : skipWs s = skipWs t) :
    parseMembers F n acc s = parseMembers F n acc t := by
  cases n with
  | zero => rfl
  | succ n => rw [parseMembers, parseMembers, h]

/-- An object with members is read member by member. -/
theorem parseValue_object {n : Nat} {s t : ByteString} {d : UInt8} (hskip : skipWs s = d :: t) (hclose : d ≠ 125) :
    parseValue F (n + 1) (123 :: s) = parseMembers F n [] s := by
  rw [parseMembers_congr (skipWs_skipWs s).symm, parseValue, skipWs_cons (by decide)]
  simp [hskip, hclose]

/-- An array with items is read item by item. -/
theorem parseValue_array {n : Nat} {s t : ByteString} {d : UInt8} (hskip : skipWs s = d :: t) (hclose : d ≠ 93) :
    parseValue F (n + 1) (91 :: s) = parseItems F n [] s := by
  rw [parseItems_congr (skipWs_skipWs s).symm, parseValue, skipWs_cons (by decide)]
  simp [hskip, hclose]

theorem stops_newline (level : Nat) (s : ByteString) : Stops (newline level ++ s) := by
  intro c t h
  obtain ⟨rfl, _⟩ := List.cons.inj h
  decide

end WhiteSpace

section RoundTrip

variable (F : FloatText) (step : Nat)

theorem indented_head (level : Nat) {j : Json} (hj : Valid F j) :
    ∃ c t, j.indented step level = c :: t ∧ isWs c = false ∧ c ≠ 93 ∧ c ≠ 0xEF := by
  have hscalar (h : j.indented step level = j.text) :
      ∃ c t, j.indented step level = c :: t ∧ isWs c = false ∧ c ≠ 93 ∧ c ≠ 0xEF := by
    obtain ⟨c, t, htext, hws, hbracket, _, hbom⟩ := text_head F j hj
    exact ⟨c, t, h.trans htext, hws, hbracket, hbom⟩
  cases j with
  | arr items => cases items <;> exact ⟨91, _, rfl, by decide⟩
  | obj ms => cases ms <;> exact ⟨123, _, rfl, by decide⟩
  | _ => exact hscalar rfl

theorem length_indented_pos (level : Nat) {j : Json} (hj : Valid F j) : 1 ≤ (j.indented step level).length := by
  obtain ⟨c, t, h, _⟩ := indented_head F step level hj
  simp [h]

theorem skipWs_indentedItems (level : Nat) {j : Json} (hj : Valid F j) (items : List Json) (rest : ByteString) :
    ∃ c t, skipWs (indentedItems step level (j :: items) ++ rest) = c :: t ∧ c ≠ 93 := by
  obtain ⟨c, t, hhead, hws, hbracket, _⟩ := indented_head F step level hj
  cases items with
  | nil =>
    refine ⟨c, t ++ rest, ?_, hbracket⟩
    rw [indentedItems, List.append_assoc, skipWs_newline, hhead, List.cons_append, skipWs_cons hws]
  | cons k items =>
    refine ⟨c, t ++ 44 :: indentedItems step level (k :: items) ++ rest, ?_, hbracket⟩
    rw [indentedItems, List.append_assoc, skipWs_newline, hhead]
    simp only [List.cons_append]
    rw [skipWs_cons hws]

theorem skipWs_indentedMembers (level : Nat) (m : ByteString × Json) (ms : List (ByteString × Json)) (rest : ByteString) :
    ∃ t, skipWs (indentedMembers step level (m :: ms) ++ rest) = 34 :: t := by
  have hquote (text : ByteString) : ∃ t, skipWs (quote m.1 ++ text) = 34 :: t := ⟨_, skipWs_cons (by decide)⟩
  cases ms with
  | nil =>
    rw [indentedMembers, List.append_assoc, skipWs_newline, List.append_assoc]
    exact hquote _
  | cons k ms =>
    rw [indentedMembers, List.append_assoc, skipWs_newline, List.append_assoc]
    exact hquote _

mutual

/-- With fuel for the length of its text, an indented value is read back in front of anything that does not
extend a number. -/
theorem parseValue_indented (level : Nat) (j : Json) (hj : Valid F j) (n : Nat) (hn : (j.indented step level).length ≤ n)
    (rest : ByteString) (hrest : Stops rest) : parseValue F n (j.indented step level ++ rest) = some (j, rest) := by
  match j, hj with
  | .null, hj => exact parseValue_text F .null hj n hn rest hrest
  | .bool b, hj => exact parseValue_text F (.bool b) hj n hn rest hrest
  | .int m, hj => exact parseValue_text F (.int m) hj n hn rest hrest
  | .float t, hj => exact parseValue_text F (.float t) hj n hn rest hrest
  | .str s, hj => exact parseValue_text F (.str s) hj n hn rest hrest
  | .arr [], hj => exact parseValue_text F (.arr []) hj n hn rest hrest
  | .obj [], hj => exact parseValue_text F (.obj []) hj n hn rest hrest
  | .arr (i :: items), hj =>
    simp only [indented, List.length_cons, List.length_append] at hn
    obtain ⟨k, rfl⟩ : ∃ k, n = k + 1 := ⟨n - 1, by omega⟩
    obtain ⟨c, t, hskip, hclose⟩ := skipWs_indentedItems F step (level + step) hj.1 items (newline level ++ 93 :: rest)
    have hitems := parseItems_indented (level + step) (i :: items) hj (by simp) k (by omega) [] level rest
    rw [show (Json.arr (i :: items)).indented step level ++ rest =
      91 :: (indentedItems step (level + step) (i :: items) ++ (newline level ++ 93 :: rest)) by simp [indented]]
    rw [parseValue_array hskip hclose, hitems]
    rfl
  | .obj (m :: ms), hj =>
    simp only [indented, List.length_cons, List.length_append] at hn
    obtain ⟨k, rfl⟩ : ∃ k, n = k + 1 := ⟨n - 1, by omega⟩
    obtain ⟨t, hskip⟩ := skipWs_indentedMembers step (level + step) m ms (newline level ++ 125 :: rest)
    have hmembers := parseMembers_indented (level + step) (m :: ms) hj.2 (by simp) k (by omega) [] hj.1 level rest
    rw [show (Json.obj (m :: ms)).indented step level ++ rest =
      123 :: (indentedMembers step (level + step) (m :: ms) ++ (newline level ++ 125 :: rest)) by simp [indented]]
    rw [parseValue_object hskip (by decide), hmembers]
    rfl

theorem parseItems_indented (level : Nat) (items : List Json) (hi : ValidItems F items) (hne : items ≠ []) (n : Nat)
    (hn : (indentedItems step level items).length + 1 ≤ n) (acc : List Json) (outer : Nat) (rest : ByteString) :
    parseItems F n acc (indentedItems step level items ++ (newline outer ++ 93 :: rest)) =
      some (.arr (acc ++ items), rest) := by
  obtain ⟨k, rfl⟩ : ∃ k, n = k + 1 := ⟨n - 1, by omega⟩
  have hclose : skipWs (newline outer ++ 93 :: rest) = 93 :: rest := by
    rw [skipWs_newline, skipWs_cons (by decide)]
  match items, hi with
  | [j], hi =>
    simp only [indentedItems, List.length_append] at hn
    have hj := parseValue_indented level j hi.1 k (by omega) (newline outer ++ 93 :: rest) (stops_newline outer _)
    rw [indentedItems, List.append_assoc, parseItems_congr (skipWs_newline level _), parseItems, hj]
    simp [hclose]
  | j :: i :: items, hi =>
    simp only [indentedItems, List.length_append, List.length_cons] at hn
    have hj := parseValue_indented level j hi.1 k (by omega)
      (44 :: (indentedItems step level (i :: items) ++ (newline outer ++ 93 :: rest))) (stops_cons (by simp))
    have hpos := length_indented_pos F step level hi.1
    have hitems := parseItems_indented level (i :: items) hi.2 (by simp) k (by omega) (acc ++ [j]) outer rest
    rw [indentedItems, List.append_assoc, List.append_assoc, List.cons_append,
      parseItems_congr (skipWs_newline level _), parseItems, hj]
    simp [skipWs_cons (c := 44) (by decide), hitems]

theorem parseMembers_indented (level : Nat) (ms : List (ByteString × Json)) (hm : ValidMembers F ms) (hne : ms ≠ [])
    (n : Nat) (hn : (indentedMembers step level ms).length + 1 ≤ n) (acc : List (ByteString × Json))
    (hs : Sorted (acc ++ ms)) (outer : Nat) (rest : ByteString) :
    parseMembers F n acc (indentedMembers step level ms ++ (newline outer ++ 125 :: rest)) =
      some (.obj (acc ++ ms), rest) := by
  obtain ⟨k, rfl⟩ : ∃ k, n = k + 1 := ⟨n - 1, by omega⟩
  have hclose : skipWs (newline outer ++ 125 :: rest) = 125 :: rest := by
    rw [skipWs_newline, skipWs_cons (by decide)]
  have hblank (s : ByteString) : skipWs (32 :: s) = skipWs s := skipWs_of_isWs (by decide) s
  match ms, hm with
  | [(key, v)], hm =>
    simp only [indentedMembers, quote, List.length_append, List.length_cons] at hn
    have hkey := scanString_quote hm.1 (58 :: 32 :: (v.indented step level ++ (newline outer ++ 125 :: rest)))
    have hv := parseValue_indented level v hm.2.1 k (by omega) (newline outer ++ 125 :: rest) (stops_newline outer _)
    rw [← parseValue_congr (hblank _)] at hv
    have hins : insert key v acc = acc ++ [(key, v)] := insert_of_forall_lt hs.forall_lt_of_append
    have hsplit : indentedMembers step level [(key, v)] ++ (newline outer ++ 125 :: rest) = newline level ++
        34 :: (escape key ++ 34 :: 58 :: 32 :: (v.indented step level ++ (newline outer ++ 125 :: rest))) := by
      simp [indentedMembers, quote]
    rw [hsplit, parseMembers_congr (skipWs_newline level _), parseMembers, skipWs_cons (c := 34) (by decide)]
    simp only [↓reduceIte, hkey, skipWs_cons (c := 58) (by decide), hv, hclose, hins]
    rfl
  | (key, v) :: m :: ms, hm =>
    simp only [indentedMembers, quote, List.length_append, List.length_cons] at hn
    have hkey := scanString_quote hm.1 (58 :: 32 :: (v.indented step level ++
      44 :: (indentedMembers step level (m :: ms) ++ (newline outer ++ 125 :: rest))))
    have hv := parseValue_indented level v hm.2.1 k (by omega)
      (44 :: (indentedMembers step level (m :: ms) ++ (newline outer ++ 125 :: rest))) (stops_cons (by simp))
    rw [← parseValue_congr (hblank _)] at hv
    have hins : insert key v acc = acc ++ [(key, v)] := insert_of_forall_lt hs.forall_lt_of_append
    have hmembers := parseMembers_indented level (m :: ms) hm.2.2 (by simp) k (by omega) (acc ++ [(key, v)])
      (by simpa using hs) outer rest
    have hsplit : indentedMembers step level ((key, v) :: m :: ms) ++ (newline outer ++ 125 :: rest) = newline level ++
        34 :: (escape key ++ 34 :: 58 :: 32 :: (v.indented step level ++
          44 :: (indentedMembers step level (m :: ms) ++ (newline outer ++ 125 :: rest)))) := by
      simp [indentedMembers, quote]
    rw [hsplit, parseMembers_congr (skipWs_newline level _), parseMembers, skipWs_cons (c := 34) (by decide)]
    simp only [↓reduceIte, hkey, skipWs_cons (c := 58) (by decide), hv, skipWs_cons (c := 44) (by decide), hins, hmembers]
    simp

end

/-- Parsing the indented text of a value gives the value back. -/
theorem parse_indented (j : Json) (hj : Valid F j) : parse F (j.indented step 0) = some j := by
  have hvalue := parseValue_indented F step 0 j hj ((j.indented step 0).length + 1) (by omega) [] stops_nil
  obtain ⟨c, t, hhead, _, _, hbom⟩ := indented_head F step 0 hj
  have hskipBom : skipBom (j.indented step 0) = some (j.indented step 0) := by
    rw [hhead, skipBom, if_neg hbom]
  rw [List.append_nil] at hvalue
  simp only [parse, hskipBom, hvalue]
  rfl

end RoundTrip

end Json
