import CodeSearch.Text.Ranges
import CodeSearch.Text.PrintTable

/-!
Text in quotes, as messages show it.

The quote is the single one, unless the text has single quotes and no double ones. Inside, the quote
in use, the backslash and the usual controls get a backslash, and a character with no picture of
its own is written by its code point in two, four or eight digits.
-/
set_option autoImplicit false

namespace CodeSearch.Text

/-- The last `width` digits of a code point to the base sixteen. -/
def hex (width n : Nat) : List Char :=
  let digits := Nat.toDigits 16 n
  List.replicate (width - digits.length) '0' ++ digits

/-- One character inside quotes. -/
def quotedChar (quote : Char) (c : Char) : List Char :=
  let n := c.toNat
  if c = quote ∨ c = '\\' then ['\\', c]
  else if c = '\t' then ['\\', 't']
  else if c = '\n' then ['\\', 'n']
  else if c = '\r' then ['\\', 'r']
  else if inRanges unprintableRanges n then
    if n < 0x100 then '\\' :: 'x' :: hex 2 n
    else if n < 0x10000 then '\\' :: 'u' :: hex 4 n
    else '\\' :: 'U' :: hex 8 n
  else [c]

/-- The single quote. -/
def singleQuote : Char := Char.ofNat 0x27

/-- The quote that a text is written in. -/
def quoteFor (cs : List Char) : Char :=
  if cs.contains singleQuote && !cs.contains '"' then '"' else singleQuote

/-- The text in quotes. -/
def quoted (s : String) : String :=
  let quote := quoteFor s.toList
  String.ofList (quote :: s.toList.flatMap (quotedChar quote) ++ [quote])

end CodeSearch.Text
