/-!
# Byte strings

Ciphers, digests and encodings exchange finite strings of octets.  A byte
string is a list, so that everything about it is said by the list library;
where a format fixes the length, the length is part of the type (`Octets`).

* `Bytes.ofNatBE` and `Bytes.ofNatLE` write a number in a fixed number of
  octets, `Bytes.toNatBE` and `Bytes.toNatLE` read one back.
* `Bytes.ofText` and `Bytes.toText?` pass between text and its UTF-8 octets.
-/

namespace SealedEnvelope

/-- A finite string of octets. -/
abbrev Bytes := List UInt8

/-- A byte string of known length. -/
abbrev Octets (n : Nat) := { bytes : Bytes // bytes.length = n }

/-- The byte string as one of length `n`, if it has that length. -/
def Octets.ofBytes? (n : Nat) (bytes : Bytes) : Option (Octets n) :=
  if h : bytes.length = n then some ⟨bytes, h⟩ else none

@[simp] theorem Octets.ofBytes?_val {n : Nat} (octets : Octets n) :
    Octets.ofBytes? n octets.val = some octets := by
  simp [Octets.ofBytes?, octets.property]

theorem Octets.ofBytes?_eq_some {n : Nat} {bytes : Bytes} {octets : Octets n} :
    Octets.ofBytes? n bytes = some octets ↔ octets.val = bytes := by
  constructor
  · intro h
    unfold Octets.ofBytes? at h
    split at h
    · rw [← Option.some.inj h]
    · cases h
  · intro h
    rw [← h, Octets.ofBytes?_val]

namespace Bytes

/-- The low `width` octets of a number, the most significant first. -/
def ofNatBE : (width n : Nat) → Bytes
  | 0, _ => []
  | width + 1, n => UInt8.ofNat (n >>> (8 * width)) :: ofNatBE width n

/-- The low `width` octets of a number, the least significant first. -/
def ofNatLE : (width n : Nat) → Bytes
  | 0, _ => []
  | width + 1, n => UInt8.ofNat n :: ofNatLE width (n / 256)

/-- The number written with its most significant octet first. -/
def toNatBE (bytes : Bytes) : Nat :=
  bytes.foldl (fun n b => n * 256 + b.toNat) 0

/-- The number written with its least significant octet first. -/
def toNatLE : Bytes → Nat
  | [] => 0
  | b :: rest => b.toNat + 256 * toNatLE rest

@[simp] theorem length_ofNatBE (width n : Nat) : (ofNatBE width n).length = width := by
  induction width generalizing n with
  | zero => rfl
  | succ width ih => simp [ofNatBE, ih]

@[simp] theorem length_ofNatLE (width n : Nat) : (ofNatLE width n).length = width := by
  induction width generalizing n with
  | zero => rfl
  | succ width ih => simp [ofNatLE, ih]

/-- Octet by octet exclusive or, as long as the shorter of the two. -/
def xor (a b : Bytes) : Bytes := List.zipWith (· ^^^ ·) a b

@[simp] theorem length_xor (a b : Bytes) : (xor a b).length = min a.length b.length := by
  simp [xor]

/-- Exclusive or with the same octets twice changes nothing. -/
theorem xor_xor_self {a b : Bytes} (h : a.length ≤ b.length) : xor (xor a b) b = a := by
  induction a generalizing b with
  | nil => rfl
  | cons x a ih =>
    cases b with
    | nil => cases h
    | cons y b =>
      show ((x ^^^ y) ^^^ y) :: xor (xor a b) b = x :: a
      rw [ih (Nat.le_of_succ_le_succ h), UInt8.xor_assoc, UInt8.xor_self, UInt8.xor_zero]

/-- The string cut into pieces of `size + 1` octets; the last piece may be
shorter. -/
def pieces (size : Nat) (bytes : Bytes) : List Bytes :=
  match bytes with
  | [] => []
  | b :: rest => (b :: rest.take size) :: pieces size (rest.drop size)
termination_by bytes.length
decreasing_by simp only [List.length_cons, List.length_drop]; omega

@[simp] theorem pieces_nil (size : Nat) : pieces size [] = [] := by
  rw [pieces]

theorem pieces_cons (size : Nat) (b : UInt8) (rest : Bytes) :
    pieces size (b :: rest) = (b :: rest.take size) :: pieces size (rest.drop size) := by
  rw [pieces]

/-- Zero octets that fill the string up to a multiple of `size`. -/
def zeroFill (size : Nat) (bytes : Bytes) : Bytes :=
  List.replicate ((size - bytes.length % size) % size) 0

/-- The octets of a text in UTF-8. -/
def ofText (text : String) : Bytes := text.toUTF8.data.toList

/-- The text that the octets spell in UTF-8, if they spell one. -/
def toText? (bytes : Bytes) : Option String := String.fromUTF8? ⟨bytes.toArray⟩

@[simp] theorem toText?_ofText (text : String) : toText? (ofText text) = some text := by
  show String.fromUTF8? ⟨text.toByteArray.data.toList.toArray⟩ = some text
  rw [Array.toArray_toList, String.fromUTF8?, dif_pos text.isValidUTF8]
  rfl

/-- The octets of a text are those of its characters. -/
theorem ofText_ofList (cs : List Char) :
    ofText (String.ofList cs) = cs.flatMap String.utf8EncodeChar := by
  show (String.ofList cs).toByteArray.data.toList = _
  rw [String.toByteArray_ofList, List.utf8Encode]
  simp

theorem ofText_injective {a b : String} (h : ofText a = ofText b) : a = b := by
  have := congrArg toText? h
  simpa using this

end Bytes
end SealedEnvelope
