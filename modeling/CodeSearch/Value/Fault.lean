import CodeSearch.Value.Basic

/-!
What can be wrong with data of unknown shape.

Each cause has its own constructor; `message` is the only place where causes become words.
-/
set_option autoImplicit false

namespace CodeSearch

/-- Why a value cannot be used as asked. -/
inductive Fault where
  /-- A value of this kind has no such operation. -/
  | noAttribute (kind property : String)
  | notIterable (kind : String)
  | notSubscriptable (kind : String)
  /-- A list or a text was asked for the entry under a key. -/
  | listNeedsPosition
  | textNeedsPosition
  | missingKey (key : Value)
  | pastListEnd
  | pastTextEnd
  | unhashable (kind : String)
  /-- A text does not spell a whole number, or a number. -/
  | notInteger (text : String)
  | notNumber (text : String)
  | noIntegerOf (kind : String)
  | noNumberOf (kind : String)
  | integerTooLarge
  | integerOfNan
  | integerOfInfinity
  /-- A text is not JSON. -/
  | notJson
  | noJsonOf (kind : String)
  /-- A vector of no components, or of less than none, has no place for a count. -/
  | noComponents
  | lessThanNoComponents
  /-- The system refused something, for a reason with a number. -/
  | system (number : Nat) (message : String)
  /-- Octets are no text. -/
  | notText (trouble : String)
  /-- Another program failed in its own way. -/
  | foreign (kind message : String)

namespace Fault

/-- The wording of a cause. -/
def message : Fault → String
  | .noAttribute kind property => s!"'{kind}' object has no attribute '{property}'"
  | .notIterable kind => s!"'{kind}' object is not iterable"
  | .notSubscriptable kind => s!"'{kind}' object is not subscriptable"
  | .listNeedsPosition => "list indices must be integers or slices, not str"
  | .textNeedsPosition => "string indices must be integers, not 'str'"
  | .missingKey key => key.quoted
  | .pastListEnd => "list index out of range"
  | .pastTextEnd => "string index out of range"
  | .unhashable kind => s!"unhashable type: '{kind}'"
  | .notInteger text => s!"invalid literal for int() with base 10: {Text.quoted text}"
  | .notNumber text => s!"could not convert string to float: {Text.quoted text}"
  | .noIntegerOf kind =>
    s!"int() argument must be a string, a bytes-like object or a real number, not '{kind}'"
  | .noNumberOf kind => s!"float() argument must be a string or a real number, not '{kind}'"
  | .integerTooLarge => "int too large to convert to float"
  | .integerOfNan => "cannot convert float NaN to integer"
  | .integerOfInfinity => "cannot convert float infinity to integer"
  | .notJson => "not JSON"
  | .noJsonOf kind => s!"the JSON object must be str, bytes or bytearray, not {kind}"
  | .noComponents => "integer modulo by zero"
  | .lessThanNoComponents => "list index out of range"
  | .system _ message => message
  | .notText trouble => trouble
  | .foreign _ message => message

end Fault

end CodeSearch
