import SealedEnvelope.Cipher.Aes.Key

/-!
# Chained blocks

Each block is added to the enciphered block before it and then enciphered; the first
is added to a given block instead.  A message is filled up to whole blocks, and at
least by one octet, with octets that say how many there are.

## How the fill is taken off

The last octet of a deciphered message says how many octets are to go.  The other
octets of the fill are not looked at.  If there are not more octets than that, none
is left.  So what was filled up comes back, the empty message included, and nothing
is said about what was not.
-/

namespace SealedEnvelope.Aes.Cbc

/-- Enciphers blocks behind the block `previous`. -/
def encipherBlocks (key : Key) : (previous : Block) → List Block → List Block
  | _, [] => []
  | previous, x :: rest =>
    let y := key.encipher (x.xor previous)
    y :: encipherBlocks key y rest

/-- Deciphers blocks behind the block `previous`. -/
def decipherBlocks (key : Key) : (previous : Block) → List Block → List Block
  | _, [] => []
  | previous, y :: rest => (key.decipher y).xor previous :: decipherBlocks key y rest

/-- The message filled up to whole blocks. -/
def fill (message : Bytes) : Bytes :=
  let missing := 16 - message.length % 16
  message ++ List.replicate missing (UInt8.ofNat missing)

/-- The message without its fill. -/
def unfill (filled : Bytes) : Bytes :=
  match filled.getLast? with
  | none => []
  | some last =>
    if last.toNat < filled.length then filled.take (filled.length - last.toNat) else []

/-- Enciphers a message behind an initial block. -/
def encrypt (key : Key) (initial : Block) (message : Bytes) : Bytes :=
  Block.listToBytes (encipherBlocks key initial ((Block.listOfBytes? (fill message)).getD []))

/-- Deciphers whole blocks, of which there must be one. -/
def decrypt? (key : Key) (initial : Block) (ciphertext : Bytes) : Option Bytes :=
  match Block.listOfBytes? ciphertext with
  | none | some [] => none
  | some blocks => some (unfill (Block.listToBytes (decipherBlocks key initial blocks)))

theorem decipherBlocks_encipherBlocks (key : Key) (previous : Block) (blocks : List Block) :
    decipherBlocks key previous (encipherBlocks key previous blocks) = blocks := by
  induction blocks generalizing previous with
  | nil => rfl
  | cons x rest ih =>
    simp only [encipherBlocks, decipherBlocks, Key.decipher_encipher, Block.xor_xor_self, ih]

@[simp] theorem length_encipherBlocks (key : Key) (previous : Block) (blocks : List Block) :
    (encipherBlocks key previous blocks).length = blocks.length := by
  induction blocks generalizing previous with
  | nil => rfl
  | cons x rest ih => simp only [encipherBlocks, List.length_cons, ih]

@[simp] theorem length_fill (message : Bytes) :
    (fill message).length = 16 * (message.length / 16 + 1) := by
  simp only [fill, List.length_append, List.length_replicate]
  omega

/-- Taking the fill off gives the message back. -/
@[simp] theorem unfill_fill (message : Bytes) : unfill (fill message) = message := by
  have hlength := length_fill message
  have hlast : (fill message).getLast? = some (UInt8.ofNat (16 - message.length % 16)) := by
    have : 16 - message.length % 16 ≠ 0 := by omega
    simp [fill, List.getLast?_append, List.getLast?_replicate, this]
  have hvalue : (UInt8.ofNat (16 - message.length % 16)).toNat = 16 - message.length % 16 := by
    rw [UInt8.toNat_ofNat']
    omega
  unfold unfill
  rw [hlast]
  simp only [hvalue, hlength]
  split
  · have : 16 * (message.length / 16 + 1) - (16 - message.length % 16) = message.length := by omega
    rw [this, fill, List.take_left]
  · exact (List.eq_nil_of_length_eq_zero (by omega)).symm

/-- The blocks of a message that was filled up. -/
theorem exists_blocks (message : Bytes) :
    ∃ blocks, Block.listOfBytes? (fill message) = some blocks ∧
      Block.listToBytes blocks = fill message ∧ blocks.length = message.length / 16 + 1 := by
  have hsome : (Block.listOfBytes? (fill message)).isSome := by
    rw [Block.listOfBytes?_isSome, length_fill]
    omega
  obtain ⟨blocks, hblocks⟩ := Option.isSome_iff_exists.1 hsome
  have hbytes := Block.listToBytes_of_listOfBytes? hblocks
  refine ⟨blocks, hblocks, hbytes, ?_⟩
  have := congrArg List.length hbytes
  rw [Block.length_listToBytes, length_fill] at this
  omega

@[simp] theorem length_encrypt (key : Key) (initial : Block) (message : Bytes) :
    (encrypt key initial message).length = 16 * (message.length / 16 + 1) := by
  obtain ⟨blocks, hblocks, -, hlength⟩ := exists_blocks message
  rw [encrypt, hblocks, Option.getD_some, Block.length_listToBytes, length_encipherBlocks, hlength]

/-- Deciphering gives the message back. -/
@[simp] theorem decrypt?_encrypt (key : Key) (initial : Block) (message : Bytes) :
    decrypt? key initial (encrypt key initial message) = some message := by
  obtain ⟨blocks, hblocks, hbytes, hlength⟩ := exists_blocks message
  rw [encrypt, hblocks, Option.getD_some, decrypt?, Block.listOfBytes?_listToBytes]
  cases blocks with
  | nil => cases hlength
  | cons x rest =>
    show some (unfill (Block.listToBytes (decipherBlocks key initial
      (encipherBlocks key initial (x :: rest))))) = _
    rw [decipherBlocks_encipherBlocks, hbytes, unfill_fill]

/-- Whole blocks can be deciphered, and nothing else. -/
theorem decrypt?_isSome (key : Key) (initial : Block) (ciphertext : Bytes) :
    (decrypt? key initial ciphertext).isSome ↔ ciphertext ≠ [] ∧ ciphertext.length % 16 = 0 := by
  rw [← Block.listOfBytes?_isSome, decrypt?]
  cases hblocks : Block.listOfBytes? ciphertext with
  | none => simp
  | some blocks =>
    have hbytes := Block.listToBytes_of_listOfBytes? hblocks
    cases blocks with
    | nil => subst hbytes; simp [Block.listToBytes]
    | cons x rest =>
      have : ciphertext ≠ [] := by
        rintro rfl
        cases hblocks
      simp [this]

end SealedEnvelope.Aes.Cbc
