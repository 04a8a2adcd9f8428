import SealedEnvelope.Bytes

/-!
# The ChaCha20 block function

A state is a square of sixteen words.  A double round mixes each column and then
each diagonal; ten of them scramble a state.  The rows of a state are rotated
between the two halves of a double round, so that the diagonals become columns and
both halves are one operation.

A scrambled state is used in two ways: added to the state it came from it is a block
of the key stream, and its first and last rows are a key for another nonce.
-/

namespace SealedEnvelope.ChaCha

/-- Four words of a state that stand side by side. -/
structure Row where
  a : UInt32
  b : UInt32
  c : UInt32
  d : UInt32

/-- Sixteen words. -/
structure State where
  p : Row
  q : Row
  r : Row
  s : Row

namespace Row

/-- A function of two words applied word by word. -/
def zip (f : UInt32 → UInt32 → UInt32) (x y : Row) : Row :=
  ⟨f x.a y.a, f x.b y.b, f x.c y.c, f x.d y.d⟩

/-- Word by word addition. -/
def add (x y : Row) : Row := zip (· + ·) x y

/-- Word by word exclusive or, each word then rotated to the left. -/
def xorRotate (count : UInt32) (x y : Row) : Row :=
  zip (fun v w => (v ^^^ w) <<< count ||| (v ^^^ w) >>> (32 - count)) x y

/-- The words moved to the left by one place. -/
def turn (x : Row) : Row := ⟨x.b, x.c, x.d, x.a⟩

/-- The words that octets stand for, the least significant octet first; missing
octets are zero. -/
def ofBytes (bytes : Bytes) : Row :=
  let word (i : Nat) : UInt32 := .ofNat (Bytes.toNatLE ((bytes.drop (4 * i)).take 4))
  ⟨word 0, word 1, word 2, word 3⟩

/-- The octets of a row. -/
def toBytes (x : Row) : Bytes :=
  [x.a, x.b, x.c, x.d].flatMap fun w => Bytes.ofNatLE 4 w.toNat

@[simp] theorem length_toBytes (x : Row) : x.toBytes.length = 16 := by
  simp [toBytes]

end Row

namespace State

/-- Mixes the words of each column. -/
def mixColumns (x : State) : State :=
  let p := x.p.add x.q
  let s := Row.xorRotate 16 x.s p
  let r := x.r.add s
  let q := Row.xorRotate 12 x.q r
  let p := p.add q
  let s := Row.xorRotate 8 s p
  let r := r.add s
  let q := Row.xorRotate 7 q r
  ⟨p, q, r, s⟩

/-- Moves the diagonals to the columns. -/
def turn (x : State) : State := ⟨x.p, x.q.turn, x.r.turn.turn, x.s.turn.turn.turn⟩

/-- Moves the columns back to the diagonals. -/
def unturn (x : State) : State := ⟨x.p, x.q.turn.turn.turn, x.r.turn.turn, x.s.turn⟩

/-- Mixes the columns and then the diagonals. -/
def doubleRound (x : State) : State := x.mixColumns.turn.mixColumns.unturn

/-- So many double rounds. -/
def scramble : (rounds : Nat) → State → State
  | 0, x => x
  | rounds + 1, x => scramble rounds x.doubleRound

/-- Word by word addition. -/
def add (x y : State) : State := ⟨x.p.add y.p, x.q.add y.q, x.r.add y.r, x.s.add y.s⟩

/-- The octets of a state. -/
def toBytes (x : State) : Bytes :=
  x.p.toBytes ++ x.q.toBytes ++ x.r.toBytes ++ x.s.toBytes

@[simp] theorem length_toBytes (x : State) : x.toBytes.length = 64 := by
  simp [toBytes]

end State

/-- The first row of every state: the octets of `expand 32-byte k`. -/
def sigma : Row := ⟨0x61707865, 0x3320646e, 0x79622d32, 0x6b206574⟩

/-- The state of a key of 32 octets and a last row of 16. -/
def start (key last : Bytes) : State :=
  ⟨sigma, .ofBytes key, .ofBytes (key.drop 16), .ofBytes last⟩

/-- How often a state is mixed. -/
def doubleRounds : Nat := 10

/-- The block of the key stream with the given number, for a nonce of 12 octets. -/
def block (key nonce : Bytes) (number : Nat) : Bytes :=
  let state := start key (Bytes.ofNatLE 4 number ++ nonce)
  ((state.scramble doubleRounds).add state).toBytes

@[simp] theorem length_block (key nonce : Bytes) (number : Nat) :
    (block key nonce number).length = 64 :=
  State.length_toBytes _

/-- The key that a key and sixteen octets of a nonce make. -/
def derivedKey (key nonce : Bytes) : Bytes :=
  let state := (start key nonce).scramble doubleRounds
  state.p.toBytes ++ state.s.toBytes

end SealedEnvelope.ChaCha
