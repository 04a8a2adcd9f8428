import SealedEnvelope.Bytes

/-!
# Stream ciphers

A stream cipher adds a key stream to a message.  The key stream comes in blocks of a
fixed size, one for each number, so the same addition enciphers and deciphers
(`add_add`).
-/

namespace SealedEnvelope.Stream

/-- Adds to each piece of a message the block of the key stream with its number. -/
def addPieces (block : Nat → Bytes) : (number : Nat) → List Bytes → Bytes
  | _, [] => []
  | number, piece :: rest =>
    Bytes.xor piece (block number) ++ addPieces block (number + 1) rest

/-- Adds a key stream, in blocks of `size + 1` octets from the block `first` on, to a
message. -/
def add (size : Nat) (block : Nat → Bytes) (first : Nat) (message : Bytes) : Bytes :=
  addPieces block first (Bytes.pieces size message)

@[simp] theorem add_nil (size : Nat) (block : Nat → Bytes) (first : Nat) :
    add size block first [] = [] := by
  rw [add, Bytes.pieces_nil, addPieces]

theorem add_cons (size : Nat) (block : Nat → Bytes) (first : Nat) (b : UInt8) (rest : Bytes) :
    add size block first (b :: rest) =
      Bytes.xor (b :: rest.take size) (block first) ++
        add size block (first + 1) (rest.drop size) := by
  rw [add, Bytes.pieces_cons, addPieces, add]

section

variable {size : Nat} {block : Nat → Bytes} (hblock : ∀ number, (block number).length = size + 1)
include hblock

/-- Adding a key stream keeps the length. -/
theorem length_add (first : Nat) :
    ∀ message : Bytes, (add size block first message).length = message.length
  | [] => by rw [add_nil]
  | b :: rest => by
    rw [add_cons, List.length_append, length_add (first + 1) (rest.drop size), Bytes.length_xor,
      hblock, List.length_cons, List.length_take, List.length_drop, List.length_cons]
    omega
termination_by message => message.length
decreasing_by simp only [List.length_cons, List.length_drop]; omega

/-- Adding a key stream twice gives the message back. -/
theorem add_add (first : Nat) :
    ∀ message : Bytes, add size block first (add size block first message) = message
  | [] => by rw [add_nil, add_nil]
  | b :: rest => by
    have hlength : (Bytes.xor (b :: rest.take size) (block first)).length =
        min size rest.length + 1 := by
      rw [Bytes.length_xor, hblock, List.length_cons, List.length_take]
      omega
    have hundo : Bytes.xor (Bytes.xor (b :: rest.take size) (block first)) (block first) =
        b :: rest.take size :=
      Bytes.xor_xor_self (by rw [hblock, List.length_cons, List.length_take]; omega)
    have htail := length_add hblock (first + 1) (rest.drop size)
    have ih := add_add (first + 1) (rest.drop size)
    rw [add_cons]
    generalize Bytes.xor (b :: rest.take size) (block first) = sum at hlength hundo ⊢
    generalize add size block (first + 1) (rest.drop size) = tail at htail ih ⊢
    rw [List.length_drop] at htail
    cases sum with
    | nil => cases hlength
    | cons c sum =>
      rw [List.length_cons] at hlength
      have htake : (sum ++ tail).take size = sum := by
        rw [List.take_append, List.take_of_length_le (by omega)]
        have : tail.take (size - sum.length) = [] := by
          rw [List.take_eq_nil_iff]
          rcases Nat.lt_or_ge rest.length size with h | h
          · exact .inr (List.eq_nil_of_length_eq_zero (by omega))
          · exact .inl (by omega)
        rw [this, List.append_nil]
      have hdrop : (sum ++ tail).drop size = tail := by
        have := List.take_append_drop size (sum ++ tail)
        rw [htake] at this
        exact List.append_cancel_left this
      rw [List.cons_append, add_cons, htake, hdrop, ih, hundo, List.cons_append,
        List.take_append_drop]
termination_by message => message.length
decreasing_by simp only [List.length_cons, List.length_drop]; omega

end

end SealedEnvelope.Stream
