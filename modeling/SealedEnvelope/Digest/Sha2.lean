import SealedEnvelope.Bytes

/-!
# The SHA-2 construction

A message is filled up to whole blocks, its length in bits standing at the end, and
the blocks are mixed one after the other into a state of eight words.  The variants
differ in the width of a word, in the rotations and in the constants
(`Sha2.Variant`).

Within a block, the rounds look at a window of sixteen words.  A round uses up the
first of them and appends one that is made of the others, so the schedule of words
is never stored.
-/

namespace SealedEnvelope.Sha2

/-- Eight words. -/
structure State (W : Type) where
  a : W
  b : W
  c : W
  d : W
  e : W
  f : W
  g : W
  h : W

/-- What the variants of the construction differ in. -/
structure Variant (W : Type) where
  /-- The octets of a word. -/
  wordSize : Nat
  ofNat : Nat → W
  toNat : W → Nat
  start : State W
  constants : List W
  /-- The mixing of the word `a` in a round. -/
  mixA : W → W
  /-- The mixing of the word `e` in a round. -/
  mixE : W → W
  /-- The mixing of the word next to the first of a window. -/
  mixNear : W → W
  /-- The mixing of the last word but one of a window. -/
  mixFar : W → W

variable {W : Type} [Add W] [XorOp W] [AndOp W] [Complement W]

/-- Word by word addition. -/
def State.add (s t : State W) : State W :=
  ⟨s.a + t.a, s.b + t.b, s.c + t.c, s.d + t.d, s.e + t.e, s.f + t.f, s.g + t.g, s.h + t.h⟩

namespace Variant

variable (v : Variant W)

/-- One round with a constant and a word of the message. -/
def round (s : State W) (k w : W) : State W :=
  let choice := (s.e &&& s.f) ^^^ (~~~s.e &&& s.g)
  let majority := (s.a &&& s.b) ^^^ (s.a &&& s.c) ^^^ (s.b &&& s.c)
  let t₁ := s.h + v.mixE s.e + choice + k + w
  let t₂ := v.mixA s.a + majority
  ⟨t₁ + t₂, s.a, s.b, s.c, s.d + t₁, s.e, s.f, s.g⟩

/-- The word that a window is followed by. -/
def nextWord (window : List W) : W :=
  let word (i : Nat) : W := window.getD i (v.ofNat 0)
  v.mixFar (word 14) + word 9 + v.mixNear (word 1) + word 0

/-- A round for each constant, the window moving on by a word each time. -/
def rounds : (constants window : List W) → State W → State W
  | [], _, s => s
  | _ :: _, [], s => s
  | k :: constants, w :: rest, s =>
    rounds constants (rest ++ [v.nextWord (w :: rest)]) (v.round s k w)

/-- The octets of a block. -/
def blockSize : Nat := 16 * v.wordSize

/-- The words that octets stand for. -/
def words (bytes : Bytes) : List W :=
  (Bytes.pieces (v.wordSize - 1) bytes).map fun piece => v.ofNat (Bytes.toNatBE piece)

/-- Mixes a block into the state. -/
def absorb (s : State W) (block : Bytes) : State W :=
  s.add (v.rounds v.constants (v.words block) s)

/-- A message filled up to whole blocks: a one bit, zeros, and the length in bits as
a number of two words. -/
def fill (message : Bytes) : Bytes :=
  let marked := message ++ [0x80]
  let lengthSize := 2 * v.wordSize
  marked ++ Bytes.zeroFill v.blockSize (marked ++ List.replicate lengthSize 0) ++
    Bytes.ofNatBE lengthSize (8 * message.length)

/-- The octets of a state. -/
def output (s : State W) : Bytes :=
  [s.a, s.b, s.c, s.d, s.e, s.f, s.g, s.h].flatMap fun w => Bytes.ofNatBE v.wordSize (v.toNat w)

/-- The digest of a message. -/
def digest (message : Bytes) : Bytes :=
  v.output ((Bytes.pieces (v.blockSize - 1) (v.fill message)).foldl v.absorb v.start)

omit [Add W] [XorOp W] [AndOp W] [Complement W] in
@[simp] theorem length_output (s : State W) : (v.output s).length = 8 * v.wordSize := by
  simp [output]; omega

@[simp] theorem length_digest (message : Bytes) : (v.digest message).length = 8 * v.wordSize :=
  v.length_output _

end Variant
end SealedEnvelope.Sha2
