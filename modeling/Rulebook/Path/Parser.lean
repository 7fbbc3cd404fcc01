import Rulebook.Path.Basic
import Rulebook.Number.Numeral

/-!
The text of a path.  It starts at the root, written `$` or left out; then come names after a point,
names anywhere below after two points, and brackets with quoted names, places, slices, `*` or a
filter.  Spaces, tabs and line ends may stand between tokens.  A filter needs something before it
that it filters, and stands in brackets of its own or after two points.  The words `where` and
`wherenot` are reserved: only in quotes are they names.

Reading goes from left to right and stops at the first token that cannot be used.
-/

namespace Rulebook.Path

/-- Why a text is no path: it is malformed, or a whole number in it has too many digits. -/
inductive Fault where
  | malformed
  | oversized
  deriving DecidableEq, Repr

/-- The tokens of a path. -/
inductive Token where
  | root
  | item
  | dot
  | dots
  | openBracket
  | closeBracket
  | openParen
  | closeParen
  | comma
  | colon
  | star
  | question
  | and
  | or
  | relation (relation : Relation)
  | name (text : String)
  | quoted (text : String)
  | int (n : Int)
  | float (x : Binary64)
  /-- Something that is of no use anywhere. -/
  | fault (fault : Fault)
  deriving DecidableEq, Repr

/-- The first character of a bare name. -/
def isNameStart (c : Char) : Bool := c.isAlpha || c == '_'

/-- The other characters of a bare name. -/
def isNameChar (c : Char) : Bool := c.isAlphanum || c == '_' || c == '@' || c == '-'

/-- The words that are no bare names. -/
def reserved : List String := ["where", "wherenot"]

/-- A bare name. -/
def nameToken (text : String) : Token :=
  if reserved.contains text then .fault .malformed else .name text

/-- A quoted name after its opening quote: a backslash takes the next character as it is, unless
that ends the line. -/
def quotedName? (quote : Char) : List Char → Option (List Char × List Char)
  | [] => none
  | '\\' :: c :: rest =>
      if c = '\n' then none
      else (quotedName? quote rest).map fun (text, rest) => (c :: text, rest)
  | c :: rest =>
      if c = quote then some ([], rest)
      else if c = '\\' then none
      else (quotedName? quote rest).map fun (text, rest) => (c :: text, rest)

/-- The values of the digits at the front, of whatever script, and the rest. -/
def takeDigits : List Char → List Nat × List Char
  | [] => ([], [])
  | c :: rest =>
      match Text.digitValue? c with
      | some digit =>
          let (digits, rest) := takeDigits rest
          (digit :: digits, rest)
      | none => ([], c :: rest)

/-- A whole number. -/
def intToken (negative : Bool) (digits : List Nat) : Token :=
  if Numeral.digitLimit < digits.length then .fault .oversized
  else
    let magnitude : Int := Text.ofDigits digits
    .int (if negative then -magnitude else magnitude)

/-- A number after its sign: digits, or digits with a fraction. -/
def numberToken? (negative : Bool) (chars : List Char) : Option (Token × List Char) :=
  match takeDigits chars with
  | ([], _) => none
  | (whole, '.' :: more) =>
      match takeDigits more with
      | ([], _) => some (intToken negative whole, '.' :: more)
      | (decimals, rest) =>
          some (.float (Numeral.ofDecimal negative (whole ++ decimals) (-(decimals.length : Int))),
            rest)
  | (whole, rest) => some (intToken negative whole, rest)

/-- The token at the front of a text. -/
def token? : List Char → Option (Token × List Char)
  | '$' :: rest => some (.root, rest)
  | '@' :: rest => some (.item, rest)
  | '.' :: '.' :: rest => some (.dots, rest)
  | '.' :: rest => some (.dot, rest)
  | '[' :: rest => some (.openBracket, rest)
  | ']' :: rest => some (.closeBracket, rest)
  | '(' :: rest => some (.openParen, rest)
  | ')' :: rest => some (.closeParen, rest)
  | ',' :: rest => some (.comma, rest)
  | ':' :: rest => some (.colon, rest)
  | '*' :: rest => some (.star, rest)
  | '?' :: rest => some (.question, rest)
  | '&' :: '&' :: rest => some (.and, rest)
  | '|' :: '|' :: rest => some (.or, rest)
  | '=' :: '=' :: rest => some (.relation .equal, rest)
  | '!' :: '=' :: rest => some (.relation .unequal, rest)
  | '<' :: '=' :: rest => some (.relation .lessEqual, rest)
  | '>' :: '=' :: rest => some (.relation .greaterEqual, rest)
  | '<' :: rest => some (.relation .less, rest)
  | '>' :: rest => some (.relation .greater, rest)
  | '-' :: rest => numberToken? true rest
  | c :: rest =>
      if c = '\'' ∨ c = '"' then
        (quotedName? c rest).map fun (text, rest) => (.quoted (String.ofList text), rest)
      else if isNameStart c then
        some (nameToken (String.ofList (c :: rest.takeWhile isNameChar)),
          rest.dropWhile isNameChar)
      else numberToken? false (c :: rest)
  | [] => none

/-- May the character stand between tokens? -/
def isGap (c : Char) : Bool := c == ' ' || c == '\t' || c == '\n'

/-- The tokens of a text, at most `fuel` of them.  What is no token is a fault, and the last. -/
def tokens (fuel : Nat) (chars : List Char) : List Token :=
  match fuel with
  | 0 => []
  | fuel + 1 =>
      match chars.dropWhile isGap with
      | [] => []
      | chars =>
          match token? chars with
          | none => [.fault .malformed]
          | some (token, rest) => token :: tokens fuel rest

/-! Reading tokens yields what they spell with the rest of them, or else the tokens from the first
that cannot be used. -/

/-- The name that a token is in brackets. -/
def bracketName? : Token → Option String
  | .name text => some text
  | .quoted text => some text
  | _ => none

/-- The name that a token is after a point. -/
def memberName? : Token → Option String
  | .int n => some (toString n)
  | token => bracketName? token

/-- More names after commas, up to the closing bracket. -/
def moreNames : List Token → Except (List Token) (List String × List Token)
  | .closeBracket :: rest => .ok ([], rest)
  | .comma :: token :: rest =>
      match bracketName? token with
      | some name => (moreNames rest).map fun (names, rest) => (name :: names, rest)
      | none => .error (token :: rest)
  | rest => .error rest

/-- More places after commas, up to the closing bracket. -/
def moreIndices : List Token → Except (List Token) (List Int × List Token)
  | .closeBracket :: rest => .ok ([], rest)
  | .comma :: .int n :: rest =>
      (moreIndices rest).map fun (places, rest) => (n :: places, rest)
  | .comma :: rest => .error rest
  | rest => .error rest

/-- A bound of a slice, if there is one. -/
def bound : List Token → Option Int × List Token
  | .int n :: rest => (some n, rest)
  | rest => (none, rest)

/-- A slice after its first bound, up to the closing bracket. -/
def slice (start : Option Int) (tokens : List Token) : Except (List Token) (Pick × List Token) :=
  match tokens with
  | .colon :: rest =>
      match bound rest with
      | (stop, .closeBracket :: rest) => .ok (.slice ⟨start, stop, none⟩, rest)
      | (stop, .colon :: rest) =>
          match bound rest with
          | (stride, .closeBracket :: rest) => .ok (.slice ⟨start, stop, stride⟩, rest)
          | (_, rest) => .error rest
      | (_, rest) => .error rest
  | rest => .error rest

/-- What stands in brackets, other than a filter, up to the closing bracket. -/
def bracket : List Token → Except (List Token) (Pick × List Token)
  | .star :: .closeBracket :: rest => .ok (.all, rest)
  | .star :: rest => .error rest
  | .int n :: .colon :: rest => slice (some n) (.colon :: rest)
  | .int n :: rest => (moreIndices rest).map fun (places, rest) => (.indices (n :: places), rest)
  | token :: rest =>
      match bracketName? token with
      | some name => (moreNames rest).map fun (names, rest) => (.names (name :: names), rest)
      | none => slice none (token :: rest)
  | [] => .error []

/-- What stands after a point. -/
def afterDot : List Token → Except (List Token) (Pick × List Token)
  | .star :: rest => .ok (.all, rest)
  | .openBracket :: rest => bracket rest
  | token :: rest =>
      match memberName? token with
      | some name => .ok (.names [name], rest)
      | none => .error (token :: rest)
  | [] => .error []

/-- The moves after `@` in a filter, as many as there are, at most `fuel`. -/
def moves (fuel : Nat) (tokens : List Token) : Except (List Token) (List Move × List Token) :=
  match fuel with
  | 0 => .error tokens
  | fuel + 1 => do
      match tokens with
      | .dot :: rest =>
          let (pick, rest) ← afterDot rest
          let (found, rest) ← moves fuel rest
          return (.child pick :: found, rest)
      | .dots :: rest =>
          let (pick, rest) ← afterDot rest
          let (found, rest) ← moves fuel rest
          return (.descend pick :: found, rest)
      | .openBracket :: rest =>
          let (pick, rest) ← bracket rest
          let (found, rest) ← moves fuel rest
          return (.child pick :: found, rest)
      | rest => return ([], rest)

/-- The constant of a comparison. -/
def constant : List Token → Except (List Token) (Value × List Token)
  | .int n :: rest => .ok (.int n, rest)
  | .float x :: rest => .ok (.float x, rest)
  | .quoted text :: rest => .ok (.str text, rest)
  | .name "true" :: rest => .ok (.bool true, rest)
  | .name "false" :: rest => .ok (.bool false, rest)
  | .name "null" :: rest => .ok (.null, rest)
  | rest => .error rest

mutual

/-- Tests joined by "or". -/
def either (fuel : Nat) (tokens : List Token) : Except (List Token) (Test × List Token) :=
  match fuel with
  | 0 => .error tokens
  | fuel + 1 => do
      match ← both fuel tokens with
      | (left, .or :: rest) =>
          let (right, rest) ← either fuel rest
          return (.either left right, rest)
      | found => return found

/-- Tests joined by "and", which binds closer. -/
def both (fuel : Nat) (tokens : List Token) : Except (List Token) (Test × List Token) :=
  match fuel with
  | 0 => .error tokens
  | fuel + 1 => do
      match ← single fuel tokens with
      | (left, .and :: rest) =>
          let (right, rest) ← both fuel rest
          return (.both left right, rest)
      | found => return found

/-- One comparison, or tests in parentheses. -/
def single (fuel : Nat) (tokens : List Token) : Except (List Token) (Test × List Token) :=
  match fuel with
  | 0 => .error tokens
  | fuel + 1 => do
      match tokens with
      | .openParen :: rest =>
          match ← either fuel rest with
          | (test, .closeParen :: rest) => return (test, rest)
          | (_, rest) => throw rest
      | .item :: rest =>
          match ← moves fuel rest with
          | (found, .relation relation :: rest) =>
              let (constant, rest) ← constant rest
              return (.compare found relation constant, rest)
          | (found, rest) => return (.present found, rest)
      | rest => throw rest

end

/-- A filter after its question mark, up to the closing bracket. -/
def filter (tokens : List Token) : Except (List Token) (Test × List Token) := do
  match ← either (4 * tokens.length + 4) tokens with
  | (test, .closeBracket :: rest) => return (test, rest)
  | (_, rest) => throw rest

/-- The step at the front of tokens, with something before it that it starts from. -/
def step : List Token → Except (List Token) (Step × List Token)
  | .openBracket :: .question :: rest =>
      (filter rest).map fun (test, rest) => (.filter test, rest)
  | .dots :: .openBracket :: .question :: rest =>
      (filter rest).map fun (test, rest) => (.descendFilter test, rest)
  | .openBracket :: rest => (bracket rest).map fun (pick, rest) => (.move (.child pick), rest)
  | .dot :: rest => (afterDot rest).map fun (pick, rest) => (.move (.child pick), rest)
  | .dots :: rest => (afterDot rest).map fun (pick, rest) => (.move (.descend pick), rest)
  | rest => .error rest

/-- The steps to the end of the tokens, at most `fuel`. -/
def steps (fuel : Nat) (tokens : List Token) : Except (List Token) Path :=
  match fuel with
  | 0 => .error tokens
  | fuel + 1 =>
      match tokens with
      | [] => .ok []
      | tokens => do
          let (first, rest) ← step tokens
          return first :: (← steps fuel rest)

/-- A whole path. -/
def whole (tokens : List Token) : Except (List Token) Path :=
  match tokens with
  | .root :: rest => steps (tokens.length + 1) rest
  | tokens => do
      let (pick, rest) ← afterDot tokens
      return .move (.child pick) :: (← steps (tokens.length + 1) rest)

/-- The path that a text spells. -/
def parse (text : String) : Except Fault Path :=
  let chars := text.toList
  match whole (tokens (chars.length + 1) chars) with
  | .ok path => .ok path
  | .error (.fault .oversized :: _) => .error .oversized
  | .error _ => .error .malformed

example : parse "$.a[-1:]..b" =
    .ok [.move (.child (.names ["a"])), .move (.child (.slice ⟨some (-1), none, none⟩)),
      .move (.descend (.names ["b"]))] := by
  rfl

/-- Does a text spell a path? -/
def isPath (text : String) : Bool :=
  match parse text with
  | .ok _ => true
  | .error _ => false

example : isPath "$.a[?(@.b > 1)]" ∧ isPath "$..[?(@)]" ∧ isPath "$\n.['where']" := by
  decide +kernel

example : !isPath "$.a[" ∧ !isPath "[?(@)]" ∧ !isPath "$.[?(@)]" ∧ !isPath "$.where" := by
  decide +kernel

end Rulebook.Path
