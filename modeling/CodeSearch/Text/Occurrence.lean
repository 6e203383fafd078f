/-!
Texts inside other texts.
-/
set_option autoImplicit false

namespace CodeSearch.Text

/-- Whether a text stands somewhere in another one; the empty text stands everywhere. -/
def contains (part : List Char) : List Char → Bool
  | [] => part.isEmpty
  | c :: rest => part.isPrefixOf (c :: rest) || contains part rest

/-- A text is found exactly where it stands as one piece. -/
theorem contains_iff_infix (part text : List Char) :
    contains part text = true ↔ part <:+: text := by
  induction text with
  | nil =>
    rw [contains, List.isEmpty_iff, List.infix_nil]
  | cons c rest ih =>
    rw [contains, Bool.or_eq_true, ih, List.isPrefixOf_iff_prefix, List.infix_cons_iff]

end CodeSearch.Text
