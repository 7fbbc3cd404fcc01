import Rulebook.Text.Printable

/-!
Quoted text: the written form of a text inside a message.  Single quotes enclose it, double quotes
when it holds a single quote and no double quote; a backslash, the quote in use and what cannot be
printed are escaped.
-/

namespace Rulebook.Text

/-- The digits of a number to the base sixteen, filled up to a width. -/
def hex (width : Nat) (n : Nat) : String :=
  let digits := Nat.toDigits 16 n
  String.ofList (List.replicate (width - digits.length) '0' ++ digits)

/-- One character inside quotes. -/
def quoteChar (quote c : Char) : String :=
  if c = quote ∨ c = '\\' then String.ofList ['\\', c]
  else if c = '\n' then "\\n"
  else if c = '\r' then "\\r"
  else if c = '\t' then "\\t"
  else if isPrintable c then c.toString
  else if c.toNat < 0x100 then "\\x" ++ hex 2 c.toNat
  else if c.toNat < 0x10000 then "\\u" ++ hex 4 c.toNat
  else "\\U" ++ hex 8 c.toNat

/-- The quote that encloses a text. -/
def quoteFor (text : String) : Char :=
  if text.toList.contains '\'' && !text.toList.contains '"' then '"' else '\''

/-- A text in quotes. -/
def quoted (text : String) : String :=
  let quote := quoteFor text
  quote.toString ++ String.join (text.toList.map (quoteChar quote)) ++ quote.toString

example : quoted "a\\b\n" = "'a\\\\b\\n'" ∧ quoted "it's" = "\"it's\"" := by decide +kernel

end Rulebook.Text
