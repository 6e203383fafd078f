/-!
Text as octets, in UTF-8.

Reading is one step at a time. A step takes either a whole character or the longest start of
a character that the octets after it rule out, and says what is wrong with it. The strict reader
stops at the first such fault, the lenient one puts U+FFFD in its place; both are the same walk over
the same steps.
-/
set_option autoImplicit false

namespace CodeSearch.Text

/-- Why octets are not UTF-8. -/
inductive Malformed where
  | start
  | continuation
  | ended
deriving DecidableEq, Repr

/-- What one step of reading takes. -/
inductive Octet.Step where
  /-- A character, and the octets after it. -/
  | char (c : Char) (rest : List UInt8)
  /-- A faulty start of the given length, and the octets after it. -/
  | fault (reason : Malformed) (length : Nat) (rest : List UInt8)

/-- An octet that can continue a character: its payload of six bits. -/
def tail? (low high : UInt8) (b : UInt8) : Option Nat :=
  if low ≤ b && b ≤ high then some (b.toNat % 64) else none

/-- The rest of a character: how many octets are owed, the range of the next one, the payload so far
and the number of octets taken. -/
def readTail : Nat → UInt8 → UInt8 → Nat → Nat → List UInt8 → Octet.Step
  | 0, _, _, payload, _, rest => .char (Char.ofNat payload) rest
  | _ + 1, _, _, _, taken, [] => .fault .ended taken []
  | owed + 1, low, high, payload, taken, b :: rest =>
    match tail? low high b with
    | some six => readTail owed 0x80 0xBF (payload * 64 + six) (taken + 1) rest
    | none => .fault .continuation taken (b :: rest)

/-- One step of reading from a first octet. The range of the second octet is narrower after the
octets that could begin an overlong form, a surrogate, or a value above U+10FFFF. -/
def readStep (b : UInt8) (rest : List UInt8) : Octet.Step :=
  if b < 0x80 then .char (Char.ofNat b.toNat) rest
  else if b < 0xC2 then .fault .start 1 rest
  else if b < 0xE0 then readTail 1 0x80 0xBF (b.toNat - 0xC0) 1 rest
  else if b < 0xF0 then
    readTail 2 (if b = 0xE0 then 0xA0 else 0x80) (if b = 0xED then 0x9F else 0xBF)
      (b.toNat - 0xE0) 1 rest
  else if b < 0xF5 then
    readTail 3 (if b = 0xF0 then 0x90 else 0x80) (if b = 0xF4 then 0x8F else 0xBF)
      (b.toNat - 0xF0) 1 rest
  else .fault .start 1 rest

/-- The octets that a step leaves. -/
def Octet.Step.rest : Octet.Step → List UInt8
  | .char _ rest => rest
  | .fault _ _ rest => rest

/-- A continued character never leaves more than it was given. -/
theorem length_rest_readTail (owed : Nat) (low high : UInt8) (payload taken : Nat)
    (bs : List UInt8) : (readTail owed low high payload taken bs).rest.length ≤ bs.length := by
  induction owed generalizing low high payload taken bs with
  | zero => simp [readTail, Octet.Step.rest]
  | succ owed ih =>
    cases bs with
    | nil => simp [readTail, Octet.Step.rest]
    | cons b rest =>
      simp only [readTail]
      split
      · exact Nat.le_succ_of_le (ih ..)
      · simp [Octet.Step.rest]

/-- A step leaves no more than the octets after the first. -/
theorem length_rest_readStep (b : UInt8) (bs : List UInt8) :
    (readStep b bs).rest.length ≤ bs.length := by
  simp only [readStep]
  repeat' split
  all_goals first
    | exact length_rest_readTail ..
    | simp [Octet.Step.rest]

/-- Where octets stop being UTF-8: the position and length of the faulty start, its first octet and
the reason. -/
structure Utf8Fault where
  position : Nat
  length : Nat
  octet : UInt8
  reason : Malformed
deriving DecidableEq, Repr

/-- Strict reading from a position on. -/
def decodeFrom (position : Nat) (read : List Char) : List UInt8 → Except Utf8Fault (List Char)
  | [] => .ok read.reverse
  | b :: bs =>
    match _h : readStep b bs with
    | .char c rest => decodeFrom (position + (bs.length + 1 - rest.length)) (c :: read) rest
    | .fault reason length _ => .error ⟨position, length, b, reason⟩
termination_by bs => bs.length
decreasing_by
  have := length_rest_readStep b bs
  simp [_h, Octet.Step.rest] at this
  simp; omega

/-- The characters that the octets spell, or the first fault. -/
def decode (bs : List UInt8) : Except Utf8Fault (List Char) :=
  decodeFrom 0 [] bs

/-- The characters that the octets spell, with U+FFFD for every faulty start. -/
def decodeLenient : List UInt8 → List Char
  | [] => []
  | b :: bs =>
    match _h : readStep b bs with
    | .char c rest => c :: decodeLenient rest
    | .fault _ _ rest => Char.ofNat 0xFFFD :: decodeLenient rest
termination_by bs => bs.length
decreasing_by
  all_goals
    have := length_rest_readStep b bs
    simp [_h, Octet.Step.rest] at this
    simp; omega

/-- The octets of a text. -/
def encode (cs : List Char) : List UInt8 :=
  cs.flatMap String.utf8EncodeChar

end CodeSearch.Text
