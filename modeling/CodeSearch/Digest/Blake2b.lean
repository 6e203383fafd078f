/-!
The hash function BLAKE2b with a digest of eight octets and no key.

The state is eight words of 64 bits. A message is cut into blocks of 128 octets, the last one
filled up with zeros; each block is mixed into the state in twelve rounds.
-/
set_option autoImplicit false

namespace CodeSearch.Digest

/-- The eight words a state starts from. -/
def initialWords : Array UInt64 := #[
  0x6A09E667F3BCC908, 0xBB67AE8584CAA73B, 0x3C6EF372FE94F82B, 0xA54FF53A5F1D36F1,
  0x510E527FADE682D1, 0x9B05688C2B3E6C1F, 0x1F83D9ABFB41BD6B, 0x5BE0CD19137E2179]

/-- The order in which the rounds take the words of a block; after the tenth row the rows repeat. -/
def schedule : Array (Array Nat) := #[
  #[0, 1, 2, 3, 4, 5, 6, 7, 8, 9, 10, 11, 12, 13, 14, 15],
  #[14, 10, 4, 8, 9, 15, 13, 6, 1, 12, 0, 2, 11, 7, 5, 3],
  #[11, 8, 12, 0, 5, 2, 15, 13, 10, 14, 3, 6, 7, 1, 9, 4],
  #[7, 9, 3, 1, 13, 12, 11, 14, 2, 6, 5, 10, 4, 0, 15, 8],
  #[9, 0, 5, 7, 2, 4, 10, 15, 14, 1, 11, 12, 6, 8, 3, 13],
  #[2, 12, 6, 10, 0, 11, 8, 3, 4, 13, 7, 5, 15, 14, 1, 9],
  #[12, 5, 1, 15, 14, 13, 4, 10, 0, 7, 6, 3, 9, 2, 8, 11],
  #[13, 11, 7, 14, 12, 1, 3, 9, 5, 0, 15, 4, 8, 6, 2, 10],
  #[6, 15, 14, 9, 11, 3, 0, 8, 12, 2, 13, 7, 1, 4, 10, 5],
  #[10, 2, 8, 4, 7, 6, 1, 5, 15, 11, 9, 14, 3, 12, 13, 0]]

/-- A word turned right by a number of bits between 1 and 63. -/
def turnRight (x : UInt64) (n : UInt64) : UInt64 :=
  (x >>> n) ||| (x <<< (64 - n))

/-- The mixing of two message words into four words of the state, given by their places. -/
def mix (v : Array UInt64) (a b c d : Nat) (x y : UInt64) : Array UInt64 :=
  let va := v.getD a 0 + v.getD b 0 + x
  let vd := turnRight (v.getD d 0 ^^^ va) 32
  let vc := v.getD c 0 + vd
  let vb := turnRight (v.getD b 0 ^^^ vc) 24
  let va := va + vb + y
  let vd := turnRight (vd ^^^ va) 16
  let vc := vc + vd
  let vb := turnRight (vb ^^^ vc) 63
  (((v.setIfInBounds a va).setIfInBounds b vb).setIfInBounds c vc).setIfInBounds d vd

/-- The places of the state that the eight mixings of a round work on: four columns, then four
diagonals. -/
def places : List (Nat × Nat × Nat × Nat) := [
  (0, 4, 8, 12), (1, 5, 9, 13), (2, 6, 10, 14), (3, 7, 11, 15),
  (0, 5, 10, 15), (1, 6, 11, 12), (2, 7, 8, 13), (3, 4, 9, 14)]

/-- One round over the words of a block. -/
def round (block : Array UInt64) (v : Array UInt64) (number : Nat) : Array UInt64 :=
  let order := schedule.getD (number % 10) #[]
  let word (i : Nat) : UInt64 := block.getD (order.getD i 0) 0
  (places.zipIdx).foldl (fun v place =>
    let ((a, b, c, d), i) := place
    mix v a b c d (word (2 * i)) (word (2 * i + 1))) v

/-- A block mixed into the state: how many octets have been taken with it, and whether it is the
last. -/
def compress (h : Array UInt64) (block : Array UInt64) (taken : Nat) (last : Bool) :
    Array UInt64 :=
  let v := h ++ initialWords
  let v := v.setIfInBounds 12 (v.getD 12 0 ^^^ UInt64.ofNat taken)
  let v := if last then v.setIfInBounds 14 (~~~ v.getD 14 0) else v
  let v := (List.range 12).foldl (round block) v
  h.mapIdx fun i x => x ^^^ v.getD i 0 ^^^ v.getD (i + 8) 0

/-- The word that eight octets spell, the lowest octet first. -/
def wordOf (octets : List UInt8) : UInt64 :=
  octets.foldr (fun b n => n <<< 8 ||| b.toUInt64) 0

/-- The sixteen words of a block, filled up with zeros. -/
def blockOf (octets : List UInt8) : Array UInt64 :=
  ((List.range 16).map fun i => wordOf ((octets.drop (8 * i)).take 8)).toArray

/-- All blocks of a message, the first of them after `taken` octets. -/
def absorb : Nat → Nat → Array UInt64 → List UInt8 → Array UInt64
  | 0, _, h, _ => h
  | fuel + 1, taken, h, octets =>
    if octets.length ≤ 128 then compress h (blockOf octets) (taken + octets.length) true
    else
      absorb fuel (taken + 128) (compress h (blockOf octets) (taken + 128) false) (octets.drop 128)

/-- The first word of the digest of eight octets, its lowest octet the first octet of the digest. -/
def digest64 (octets : List UInt8) : UInt64 :=
  let start := initialWords.setIfInBounds 0 (initialWords.getD 0 0 ^^^ 0x01010008)
  (absorb (octets.length / 128 + 1) 0 start octets).getD 0 0

/-- The eight octets of the digest. -/
def digest (octets : List UInt8) : List UInt8 :=
  let word := digest64 octets
  (List.range 8).map fun i => (word >>> UInt64.ofNat (8 * i)).toUInt8

end CodeSearch.Digest
