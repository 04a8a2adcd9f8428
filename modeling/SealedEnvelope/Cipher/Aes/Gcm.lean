import SealedEnvelope.Cipher.Aes.Key
import SealedEnvelope.Cipher.Sealed
import SealedEnvelope.Cipher.Stream

/-!
# Galois counter mode

The key stream is made of enciphered counters.  The tag is a polynomial in the
enciphered zero block, evaluated over the field of `2 ^ 128` elements, plus one more
block of the key stream.

An element of the field is a number whose most significant bit is the coefficient of
`1`; adding is exclusive or, and multiplying by the variable is a shift to the right.
-/

namespace SealedEnvelope.Aes.Gcm

/-- The field element of up to sixteen octets. -/
def element (bytes : Bytes) : Nat :=
  Bytes.toNatBE (bytes ++ List.replicate (16 - bytes.length) 0)

/-- An element times the variable. -/
def shift (v : Nat) : Nat :=
  if v % 2 = 0 then v / 2 else (v / 2) ^^^ 0xe1000000000000000000000000000000

/-- The sum of `v`, `shift v`, … for the bits of `x` below `bits`, the most
significant first. -/
def productOnto (x : Nat) : (bits : Nat) → (v sum : Nat) → Nat
  | 0, _, sum => sum
  | bits + 1, v, sum =>
    productOnto x bits (shift v) (if x.testBit bits then sum ^^^ v else sum)

/-- The product of two elements. -/
def product (x y : Nat) : Nat := productOnto x 128 y 0

/-- The value at `h` of the polynomial whose coefficients are pieces of sixteen
octets. -/
def hash (h : Nat) (bytes : Bytes) : Nat :=
  (Bytes.pieces 15 bytes).foldl (fun sum piece => product (sum ^^^ element piece) h) 0

/-- The counter block of a nonce of twelve octets. -/
def counterBlock (nonce : Bytes) (counter : Nat) : Bytes := nonce ++ Bytes.ofNatBE 4 counter

/-- An enciphered counter. -/
def keyStream (key : Key) (nonce : Bytes) (counter : Nat) : Bytes :=
  (key.encipher ((Block.ofBytes? (counterBlock nonce counter)).getD .zero)).toBytes

/-- What is authenticated: both texts filled up with zeros, and their lengths in
bits. -/
def authenticated (aad ciphertext : Bytes) : Bytes :=
  aad ++ Bytes.zeroFill 16 aad ++ ciphertext ++ Bytes.zeroFill 16 ciphertext ++
    Bytes.ofNatBE 8 (8 * aad.length) ++ Bytes.ofNatBE 8 (8 * ciphertext.length)

/-- The cipher for a key and a nonce of twelve octets. -/
def cipher (key : Key) (nonce : Bytes) : Cipher where
  encipher := Stream.add 15 (keyStream key nonce) 2
  decipher? := fun ciphertext => some (Stream.add 15 (keyStream key nonce) 2 ciphertext)
  tag := fun aad ciphertext =>
    let h := element (key.encipher .zero).toBytes
    Bytes.xor (keyStream key nonce 1) (Bytes.ofNatBE 16 (hash h (authenticated aad ciphertext)))

@[simp] theorem length_keyStream (key : Key) (nonce : Bytes) (counter : Nat) :
    (keyStream key nonce counter).length = 16 :=
  Block.length_toBytes _

@[simp] theorem length_encipher (key : Key) (nonce message : Bytes) :
    ((cipher key nonce).encipher message).length = message.length :=
  Stream.length_add (length_keyStream key nonce) 2 message

@[simp] theorem decipher?_encipher (key : Key) (nonce message : Bytes) :
    (cipher key nonce).decipher? ((cipher key nonce).encipher message) = some message :=
  congrArg some (Stream.add_add (length_keyStream key nonce) 2 message)

@[simp] theorem length_tag (key : Key) (nonce aad ciphertext : Bytes) :
    ((cipher key nonce).tag aad ciphertext).length = 16 := by
  simp [cipher]

end SealedEnvelope.Aes.Gcm
