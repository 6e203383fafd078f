/-!
White space in text, and the cuts made at it.

The class is the Unicode property with the four information separators U+001C to U+001F added; the
zero width space is not in it. `words` and `trim` are defined over lists of characters, where
a proof can follow them, and have a form on strings beside them.
-/
set_option autoImplicit false

namespace CodeSearch.Text

/-- White space: the Unicode property together with the information separators. -/
def isBlank (c : Char) : Bool :=
  let n := c.toNat
  (0x09 ≤ n && n ≤ 0x0D) || (0x1C ≤ n && n ≤ 0x20) || n == 0x85 || n == 0xA0 || n == 0x1680 ||
    (0x2000 ≤ n && n ≤ 0x200A) || n == 0x2028 || n == 0x2029 || n == 0x202F || n == 0x205F ||
    n == 0x3000

/-- One character more in front of a text that is already cut: the word under way and the words
after it. -/
def wordStep (c : Char) (cut : List Char × List (List Char)) : List Char × List (List Char) :=
  if isBlank c then
    match cut.1 with
    | [] => cut
    | word => ([], word :: cut.2)
  else (c :: cut.1, cut.2)

/-- The maximal runs of characters that are not white space, in order. -/
def words (cs : List Char) : List (List Char) :=
  match cs.foldr wordStep ([], []) with
  | ([], rest) => rest
  | (word, rest) => word :: rest

/-- The text without the characters of a class at its two ends. -/
def trimOf (drop : Char → Bool) (cs : List Char) : List Char :=
  ((cs.dropWhile drop).reverse.dropWhile drop).reverse

/-- The text without the white space at its end. -/
def trimRight (s : String) : String :=
  String.ofList (s.toList.reverse.dropWhile isBlank).reverse

/-- The text without the white space at its two ends. -/
def trim (s : String) : String :=
  String.ofList (trimOf isBlank s.toList)

/-- The text without the characters of a class at its two ends. -/
def trimChars (drop : Char → Bool) (s : String) : String :=
  String.ofList (trimOf drop s.toList)

/-- Whether every character is white space; so of the empty text. -/
def isAllBlank (s : String) : Bool :=
  s.toList.all isBlank

end CodeSearch.Text
