import KnishIO.Library.Decimal
import KnishIO.Library.Utf8

open ByteString

namespace GraphQL

inductive Token where
  | bang
  | dollar
  | ampersand
  | parenLeft
  | parenRight
  | spread
  | colon
  | equals
  | at
  | bracketLeft
  | bracketRight
  | braceLeft
  | pipe
  | braceRight
  | name (s : ByteString)
  | int
  | float
  | string
  deriving DecidableEq, Repr

section Lexer

/-- `[A-Za-z_]`. -/
def isNameStart (c : UInt8) : Bool := (65 ≤ c && c ≤ 90) || (97 ≤ c && c ≤ 122) || c = 95

/-- `[A-Za-z0-9_]`. -/
def isNameContinue (c : UInt8) : Bool := isNameStart c || Decimal.isDigit c

def punctuator (c : UInt8) : Option Token :=
  [(33, .bang), (36, .dollar), (38, .ampersand), (40, .parenLeft), (41, .parenRight), (58, .colon), (61, .equals),
    (64, .at), (91, .bracketLeft), (93, .bracketRight), (123, .braceLeft), (124, .pipe), (125, .braceRight)].lookup c

/-- White space, line ends and commas. -/
def isIgnored (c : UInt8) : Bool := c = 32 || c = 9 || c = 10 || c = 13 || c = 44

def isLineEnd (c : UInt8) : Bool := c = 10 || c = 13

/-- A quoted string after its quotation mark. -/
def skipString : ByteString → Option ByteString
  | 34 :: rest => some rest
  | 92 :: c :: rest => if c ∈ ascii "\"\\/bfnrtu" then skipString rest else none
  | c :: rest => if isLineEnd c then none else skipString rest
  | [] => none

/-- A block string after its three quotation marks. -/
def skipBlockString : ByteString → Option ByteString
  | 34 :: 34 :: 34 :: rest => some rest
  | 92 :: 34 :: 34 :: 34 :: rest => skipBlockString rest
  | _ :: rest => skipBlockString rest
  | [] => none

def skipDigits (s : ByteString) : Option ByteString :=
  match s with
  | c :: rest => if Decimal.isDigit c then some (rest.dropWhile Decimal.isDigit) else none
  | [] => none

/-- A number ends where neither a digit, a dot nor a name goes on. -/
def endNumber (token : Token) (s : ByteString) : Option (Token × ByteString) :=
  if s.head?.any fun c => isNameContinue c || c = 46 then none else some (token, s)

/-- The exponent of a number. -/
def lexExponent (token : Token) (s : ByteString) : Option (Token × ByteString) :=
  match s with
  | c :: rest =>
    if c = 69 ∨ c = 101 then
      (skipDigits (if rest.head?.any fun sign => sign = 43 || sign = 45 then rest.tail else rest)).bind (endNumber .float)
    else endNumber token s
  | [] => some (token, [])

/-- A number after its sign. -/
def lexNumber (s : ByteString) : Option (Token × ByteString) :=
  (if s.head? = some 48 then some s.tail else skipDigits s).bind fun rest =>
    match rest with
    | 46 :: fraction => (skipDigits fraction).bind (lexExponent .float)
    | _ => lexExponent .int rest

/-- The next token, with nothing ignored before it. -/
def lexToken : ByteString → Option (Token × ByteString)
  | 46 :: 46 :: 46 :: rest => some (.spread, rest)
  | 34 :: 34 :: 34 :: rest => (skipBlockString rest).map (.string, ·)
  | 34 :: rest => (skipString rest).map (.string, ·)
  | 45 :: rest => lexNumber rest
  | c :: rest =>
    if isNameStart c then some (.name (c :: rest.takeWhile isNameContinue), rest.dropWhile isNameContinue)
    else if Decimal.isDigit c then lexNumber (c :: rest)
    else (punctuator c).map (·, rest)
  | [] => none

/-- The tokens of a text, by at most as many steps as it has bytes. -/
def lexFrom : Nat → ByteString → Option (List Token)
  | _, [] => some []
  | 0, _ :: _ => none
  | n + 1, c :: rest =>
    if isIgnored c then lexFrom n rest
    else if c = 35 then lexFrom n (rest.dropWhile fun c => !isLineEnd c)
    else if [c] ++ rest.take 2 = [0xEF, 0xBB, 0xBF] then lexFrom n (rest.drop 2)
    else (lexToken (c :: rest)).bind fun (token, rest) => (lexFrom n rest).map (token :: ·)

def lex (s : ByteString) : Option (List Token) := if Utf8.valid s then lexFrom s.length s else none

end Lexer

inductive OperationType where
  | query
  | mutation
  | subscription
  deriving DecidableEq, Repr

def OperationType.keyword : OperationType → ByteString
  | .query => ascii "query"
  | .mutation => ascii "mutation"
  | .subscription => ascii "subscription"

def OperationType.all : List OperationType := [.query, .mutation, .subscription]

/-- Of an inline fragment without a type condition that has directives, the name of the first is kept. -/
inductive Selection where
  | field (alias? : Option ByteString) (name : ByteString) (selections : List Selection)
  | fragmentSpread (name : ByteString)
  | inlineFragment (lead? : Option ByteString) (selections : List Selection)
  deriving Repr

mutual

def Selection.decEq : (a b : Selection) → Decidable (a = b)
  | .field alias? name selections, .field alias?' name' selections' =>
    have := Selection.decEqAll selections selections'
    decidable_of_iff (alias? = alias?' ∧ name = name' ∧ selections = selections') (by simp)
  | .fragmentSpread name, .fragmentSpread name' => decidable_of_iff (name = name') (by simp)
  | .inlineFragment lead? selections, .inlineFragment lead?' selections' =>
    have := Selection.decEqAll selections selections'
    decidable_of_iff (lead? = lead?' ∧ selections = selections') (by simp)
  | .field _ _ _, .fragmentSpread _ => isFalse nofun
  | .field _ _ _, .inlineFragment _ _ => isFalse nofun
  | .fragmentSpread _, .field _ _ _ => isFalse nofun
  | .fragmentSpread _, .inlineFragment _ _ => isFalse nofun
  | .inlineFragment _ _, .field _ _ _ => isFalse nofun
  | .inlineFragment _ _, .fragmentSpread _ => isFalse nofun

def Selection.decEqAll : (as bs : List Selection) → Decidable (as = bs)
  | [], [] => isTrue rfl
  | a :: as, b :: bs =>
    have := Selection.decEq a b
    have := Selection.decEqAll as bs
    decidable_of_iff (a = b ∧ as = bs) (by simp)
  | [], _ :: _ => isFalse nofun
  | _ :: _, [] => isFalse nofun

end

instance : DecidableEq Selection := Selection.decEq

/-- An operation without a keyword is a shorthand query. Of what stands between the type and the selections, only
whether it has a brace is kept. -/
structure Operation where
  type : OperationType
  shorthand : Bool
  bracesAhead : Bool
  selections : List Selection
  deriving DecidableEq, Repr

inductive Definition where
  | operation (operation : Operation)
  | fragment (name : ByteString) (selections : List Selection)
  deriving DecidableEq, Repr

/-- An executable document. -/
abbrev Document := List Definition

section Parser

mutual

/-- A value; a constant one has no variables. -/
def skipValue (const : Bool) : Nat → List Token → Option (List Token)
  | 0, _ => none
  | n + 1, ts =>
    match ts with
    | .dollar :: .name _ :: rest => if const then none else some rest
    | .int :: rest => some rest
    | .float :: rest => some rest
    | .string :: rest => some rest
    | .name _ :: rest => some rest
    | .bracketLeft :: rest => skipItems const n rest
    | .braceLeft :: rest => skipFields const n rest
    | _ => none

def skipItems (const : Bool) : Nat → List Token → Option (List Token)
  | 0, _ => none
  | n + 1, ts =>
    match ts with
    | .bracketRight :: rest => some rest
    | _ => (skipValue const n ts).bind (skipItems const n)

def skipFields (const : Bool) : Nat → List Token → Option (List Token)
  | 0, _ => none
  | n + 1, ts =>
    match ts with
    | .braceRight :: rest => some rest
    | .name _ :: .colon :: rest => (skipValue const n rest).bind (skipFields const n)
    | _ => none

end

/-- The arguments up to the closing parenthesis. -/
def skipArguments (const : Bool) : Nat → List Token → Option (List Token)
  | 0, _ => none
  | n + 1, ts =>
    match ts with
    | .name _ :: .colon :: rest =>
      (skipValue const n rest).bind fun rest =>
        match rest with
        | .parenRight :: rest => some rest
        | _ => skipArguments const n rest
    | _ => none

def skipOptionalArguments (const : Bool) (n : Nat) : List Token → Option (List Token)
  | .parenLeft :: rest => skipArguments const n rest
  | ts => some ts

def skipDirectives (const : Bool) : Nat → List Token → Option (List Token)
  | 0, _ => none
  | n + 1, ts =>
    match ts with
    | .at :: .name _ :: rest => (skipOptionalArguments const n rest).bind (skipDirectives const n)
    | .at :: _ => none
    | _ => some ts

def skipBang : List Token → List Token
  | .bang :: rest => rest
  | ts => ts

def skipType : Nat → List Token → Option (List Token)
  | 0, _ => none
  | n + 1, ts =>
    match ts with
    | .name _ :: rest => some (skipBang rest)
    | .bracketLeft :: rest =>
      (skipType n rest).bind fun rest =>
        match rest with
        | .bracketRight :: rest => some (skipBang rest)
        | _ => none
    | _ => none

def skipDefault (n : Nat) : List Token → Option (List Token)
  | .equals :: rest => skipValue true n rest
  | ts => some ts

/-- The variable definitions up to the closing parenthesis. -/
def skipVariables : Nat → List Token → Option (List Token)
  | 0, _ => none
  | n + 1, ts =>
    match ts with
    | .dollar :: .name _ :: .colon :: rest =>
      ((skipType n rest).bind fun rest => (skipDefault n rest).bind (skipDirectives true n)).bind fun rest =>
        match rest with
        | .parenRight :: rest => some rest
        | _ => skipVariables n rest
    | _ => none

def skipOptionalVariables (n : Nat) : List Token → Option (List Token)
  | .parenLeft :: rest => skipVariables n rest
  | ts => some ts

mutual

/-- The selections up to the closing brace; there is at least one. The parts that say nothing about which fields are
selected are recognised and dropped. -/
def parseSelections : Nat → List Token → Option (List Selection × List Token)
  | 0, _ => none
  | n + 1, ts =>
    (parseSelection n ts).bind fun (selection, rest) =>
      match rest with
      | .braceRight :: rest => some ([selection], rest)
      | _ => (parseSelections n rest).map fun (selections, rest) => (selection :: selections, rest)

def parseSelection : Nat → List Token → Option (Selection × List Token)
  | 0, _ => none
  | n + 1, ts =>
    match ts with
    | .spread :: .name condition :: rest =>
      if condition = ascii "on" then
        match rest with
        | .name _ :: rest => parseInlineFragment n (some condition) rest
        | _ => none
      else (skipDirectives false n rest).map fun rest => (.fragmentSpread condition, rest)
    | .spread :: .at :: .name directive :: rest => parseInlineFragment n (some directive) (.at :: .name directive :: rest)
    | .spread :: rest => parseInlineFragment n none rest
    | .name alias' :: .colon :: .name name :: rest => parseField n (some alias') name rest
    | .name name :: rest => parseField n none name rest
    | _ => none

def parseInlineFragment : Nat → Option ByteString → List Token → Option (Selection × List Token)
  | 0, _, _ => none
  | n + 1, lead?, ts =>
    (skipDirectives false n ts).bind fun rest =>
      match rest with
      | .braceLeft :: rest =>
        (parseSelections n rest).map fun (selections, rest) => (.inlineFragment lead? selections, rest)
      | _ => none

def parseField : Nat → Option ByteString → ByteString → List Token → Option (Selection × List Token)
  | 0, _, _, _ => none
  | n + 1, alias?, name, ts =>
    ((skipOptionalArguments false n ts).bind (skipDirectives false n)).bind fun rest =>
      match rest with
      | .braceLeft :: rest =>
        (parseSelections n rest).map fun (selections, rest) => (.field alias? name selections, rest)
      | _ => some (.field alias? name [], rest)

end

def skipName : List Token → List Token
  | .name _ :: rest => rest
  | ts => ts

def parseSelectionSet (n : Nat) (ts : List Token) : Option (List Selection × List Token) :=
  match ts with
  | .braceLeft :: rest => parseSelections n rest
  | _ => none

/-- An operation after its keyword. -/
def parseOperation (n : Nat) (type : OperationType) (ts : List Token) : Option (Operation × List Token) :=
  ((skipOptionalVariables n (skipName ts)).bind (skipDirectives false n)).bind fun after =>
    (parseSelectionSet n after).map fun (selections, rest) =>
      (⟨type, false, ts.dropWhile (· ≠ .braceLeft) ≠ after, selections⟩, rest)

/-- A fragment after its keyword; its name is not `on`. -/
def parseFragment (n : Nat) (ts : List Token) : Option (Definition × List Token) :=
  match ts with
  | .name name :: .name on :: .name _ :: rest =>
    if name ≠ ascii "on" ∧ on = ascii "on" then
      (skipDirectives false n rest).bind fun rest =>
        (parseSelectionSet n rest).map fun (selections, rest) => (.fragment name selections, rest)
    else none
  | _ => none

def parseDefinition (n : Nat) (ts : List Token) : Option (Definition × List Token) :=
  match ts with
  | .braceLeft :: rest =>
    (parseSelections n rest).map fun (selections, rest) => (.operation ⟨.query, true, false, selections⟩, rest)
  | .name keyword :: rest =>
    if keyword = ascii "fragment" then parseFragment n rest
    else
      (OperationType.all.find? fun type => type.keyword = keyword).bind fun type =>
        (parseOperation n type rest).map fun (operation, rest) => (.operation operation, rest)
  | _ => none

/-- The definitions of a document; there is at least one. -/
def parseDefinitions : Nat → List Token → Option Document
  | 0, _ => none
  | n + 1, ts =>
    (parseDefinition n ts).bind fun (definition, rest) =>
      if rest = [] then some [definition] else (parseDefinitions n rest).map (definition :: ·)

/-- Five nested calls read at least one token. -/
def parseDocument (text : ByteString) : Option Document :=
  (lex text).bind fun ts => parseDefinitions (5 * ts.length + 5) ts

end Parser

section RootFields

mutual

/-- The first name of the text of a selection: of a field with an alias this is the alias. -/
def Selection.leadingName : Selection → ByteString
  | .field alias? name _ => alias?.getD name
  | .fragmentSpread name => name
  | .inlineFragment (some lead) _ => lead
  | .inlineFragment none selections => leadingNameAll selections

def leadingNameAll : List Selection → ByteString
  | [] => []
  | selection :: _ => selection.leadingName

end

def Operation.leadingName (operation : Operation) : ByteString := leadingNameAll operation.selections

end RootFields

end GraphQL
