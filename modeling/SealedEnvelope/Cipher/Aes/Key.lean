import SealedEnvelope.Cipher.Aes.Block

/-!
# The AES block cipher

A block goes through rounds, each of which ends in adding a round key.  Enciphering
and deciphering run over the same list of round keys, in opposite directions, so
that one undoes the other whatever the round keys are.

A key of 16 octets has eleven round keys and one of 32 octets fifteen; keys of
other lengths are not supported.
-/

namespace SealedEnvelope.Aes

/-- The round keys of a key. -/
structure Key where
  first : Block
  others : List Block

/-! ## Round keys -/

/-- The factors that the rounds of a key schedule differ in. -/
def roundFactors : List UInt8 := [0x01, 0x02, 0x04, 0x08, 0x10, 0x20, 0x40, 0x80, 0x1b, 0x36]

/-- The next round key: each column is that of the key before it plus the column to
its left, and the leftmost has `seed` on its left. -/
def nextKey (key : Block) (seed : Column) : Block :=
  let p := key.p.xor seed
  let q := key.q.xor p
  let r := key.r.xor q
  ⟨p, q, r, key.s.xor r⟩

/-- The column that starts a round of the schedule. -/
def turnedSeed (column : Column) (factor : UInt8) : Column :=
  (column.rotate.map substitute).xor ⟨factor, 0, 0, 0⟩

/-- The round keys that follow a key of one block. -/
def shortSchedule : (factors : List UInt8) → Block → List Block
  | [], _ => []
  | factor :: factors, key =>
    let next := nextKey key (turnedSeed key.s factor)
    next :: shortSchedule factors next

/-- The round keys that follow a key of two blocks, in pairs. -/
def longSchedule : (factors : List UInt8) → Block → Block → List Block
  | [], _, _ => []
  | factor :: factors, left, right =>
    let left' := nextKey left (turnedSeed right.s factor)
    let right' := nextKey right (left'.s.map substitute)
    left' :: right' :: longSchedule factors left' right'

/-- The key of 16 or 32 octets. -/
def Key.ofBytes? (bytes : Bytes) : Option Key :=
  match Block.listOfBytes? bytes with
  | some [key] => some ⟨key, shortSchedule roundFactors key⟩
  | some [left, right] =>
    some ⟨left, right :: (longSchedule (roundFactors.take 7) left right).take 13⟩
  | _ => none

/-! ## Rounds -/

/-- The rounds for the given keys; the last round does not mix columns. -/
def encipherRounds : List Block → Block → Block
  | [], x => x
  | [last], x => x.substitute.shiftRows.xor last
  | key :: next :: keys, x =>
    encipherRounds (next :: keys) (x.substitute.shiftRows.mixColumns.xor key)

/-- Undoes `encipherRounds`. -/
def decipherRounds : List Block → Block → Block
  | [], x => x
  | [last], x => (x.xor last).unshiftRows.restore
  | key :: next :: keys, x =>
    ((decipherRounds (next :: keys) x).xor key).unmixColumns.unshiftRows.restore

/-- Enciphers a block. -/
def Key.encipher (key : Key) (x : Block) : Block := encipherRounds key.others (x.xor key.first)

/-- Deciphers a block. -/
def Key.decipher (key : Key) (x : Block) : Block :=
  (decipherRounds key.others x).xor key.first

theorem decipherRounds_encipherRounds (keys : List Block) (x : Block) :
    decipherRounds keys (encipherRounds keys x) = x := by
  fun_induction encipherRounds keys x with
  | case1 => rfl
  | case2 last x => simp [decipherRounds, Block.xor_xor_self]
  | case3 key next keys x ih => simp [decipherRounds, ih, Block.xor_xor_self]

theorem encipherRounds_decipherRounds (keys : List Block) (x : Block) :
    encipherRounds keys (decipherRounds keys x) = x := by
  fun_induction decipherRounds keys x with
  | case1 => rfl
  | case2 last x => simp [encipherRounds, Block.xor_xor_self]
  | case3 key next keys x ih => simp [encipherRounds, ih, Block.xor_xor_self]

@[simp] theorem Key.decipher_encipher (key : Key) (x : Block) :
    key.decipher (key.encipher x) = x := by
  rw [Key.decipher, Key.encipher, decipherRounds_encipherRounds, Block.xor_xor_self]

@[simp] theorem Key.encipher_decipher (key : Key) (x : Block) :
    key.encipher (key.decipher x) = x := by
  rw [Key.decipher, Key.encipher, Block.xor_xor_self, encipherRounds_decipherRounds]

end SealedEnvelope.Aes
