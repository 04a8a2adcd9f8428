import SealedEnvelope.Multibase.Basic
import SealedEnvelope.Proofs.Positional

/-!
# Base 58, there and back

A byte string is read back from its text in base 58 (`Multibase.decode_encodeBase58`), and a
text in base 58 that can be read is the one that is written for its octets
(`Multibase.encodeBase58_of_decode`).  So base 58 gives each byte string one text, and neither
direction loses a leading zero.

Both directions are the same change of base, from 256 to 58 and from 58 to 256
(`Multibase.Number.convert`), and changing the base twice changes nothing.
-/

namespace SealedEnvelope.Multibase

namespace Number

/-! ## Changing the base -/

/-- The numeral in another base, with as many zeros in front. -/
def convert (source target : Nat) (ds : List Nat) : List Nat :=
  List.replicate (ds.takeWhile (· == 0)).length 0 ++
    Positional.digits target (Positional.value source ds)

variable {source target : Nat} {ds : List Nat}

theorem lt_of_mem_convert (ht : 2 ≤ target) : ∀ d ∈ convert source target ds, d < target := by
  intro d hd
  rcases List.mem_append.1 hd with hd | hd
  · rw [List.eq_of_mem_replicate hd]
    omega
  · exact Positional.lt_of_mem_digits ht d hd

theorem takeWhile_eq_replicate (ds : List Nat) :
    List.replicate (ds.takeWhile (· == 0)).length 0 = ds.takeWhile (· == 0) := by
  refine (List.eq_replicate_iff.2 ⟨rfl, fun d hd => ?_⟩).symm
  simpa using List.all_eq_true.1 List.all_takeWhile d hd

/-- The zeros in front are counted again, and the number is the same. -/
theorem convert_convert (hs : 2 ≤ source) (ht : 2 ≤ target) (hds : ∀ d ∈ ds, d < source) :
    convert target source (convert source target ds) = ds := by
  have hzeros : (convert source target ds).takeWhile (· == 0) = ds.takeWhile (· == 0) := by
    rw [convert, List.takeWhile_append_of_pos fun d hd => by simp [List.eq_of_mem_replicate hd],
      Positional.takeWhile_digits ht, List.append_nil, takeWhile_eq_replicate]
  have hvalue : Positional.value target (convert source target ds) =
      Positional.value source ds := by
    rw [convert, Positional.value_replicate_append, Positional.value_digits ht]
  rw [convert, hzeros, hvalue, Positional.digits_value hs hds, takeWhile_eq_replicate,
    List.takeWhile_append_dropWhile]

/-! ## Octets -/

theorem length_zeros (bytes : Bytes) :
    (bytes.takeWhile (· == 0)).length = ((bytes.map (·.toNat)).takeWhile (· == 0)).length := by
  rw [List.takeWhile_map, List.length_map]
  congr 2
  funext b
  rw [Bool.eq_iff_iff, beq_iff_eq, Function.comp_apply, beq_iff_eq, ← UInt8.toNat_inj]
  rfl

theorem digits_eq_convert (base : Nat) (bytes : Bytes) :
    digits base bytes = convert 256 base (bytes.map (·.toNat)) := by
  rw [digits, convert, length_zeros]

theorem bytes_eq_map_convert (base : Nat) (ds : List Nat) :
    bytes base ds = (convert base 256 ds).map UInt8.ofNat := by
  rw [bytes, convert, List.map_append, List.map_replicate]
  rfl

theorem map_ofNat_map_toNat (bytes : Bytes) :
    (bytes.map (·.toNat)).map UInt8.ofNat = bytes := by
  rw [List.map_map]
  exact List.map_id'' (fun _ => UInt8.ofNat_toNat) bytes

theorem map_toNat_map_ofNat (hds : ∀ d ∈ ds, d < 256) :
    (ds.map UInt8.ofNat).map (·.toNat) = ds := by
  have hsame : ∀ d ∈ ds, ((·.toNat) ∘ UInt8.ofNat) d = d := fun d hd =>
    UInt8.toNat_ofNat_of_lt' (hds d hd)
  rw [List.map_map, List.map_congr_left hsame, List.map_id']

theorem lt_of_mem_digits {base : Nat} (hb : 2 ≤ base) (bytes : Bytes) :
    ∀ d ∈ digits base bytes, d < base := by
  rw [digits_eq_convert]
  exact lt_of_mem_convert hb

/-- A byte string is read back from its numeral. -/
theorem bytes_digits {base : Nat} (hb : 2 ≤ base) (bs : Bytes) :
    bytes base (digits base bs) = bs := by
  have hlt : ∀ d ∈ bs.map (·.toNat), d < 256 := by
    intro d hd
    obtain ⟨b, -, rfl⟩ := List.mem_map.1 hd
    exact b.toNat_lt
  rw [bytes_eq_map_convert, digits_eq_convert, convert_convert (by decide) hb hlt,
    map_ofNat_map_toNat]

/-- A numeral is the one that is written for the byte string that it spells. -/
theorem digits_bytes {base : Nat} (hb : 2 ≤ base) (hds : ∀ d ∈ ds, d < base) :
    digits base (bytes base ds) = ds := by
  rw [digits_eq_convert, bytes_eq_map_convert, map_toNat_map_ofNat (lt_of_mem_convert (by decide)),
    convert_convert hb (by decide) hds]

end Number

/-! ## Base 58 -/

theorem digit?_base58Char {d : Nat} (h : d < 58) : digit? base58 false (base58Char d) = some d := by
  have hall : ∀ d : Fin 58, digit? base58 false (base58Char d) = some d.val := by decide +kernel
  exact hall ⟨d, h⟩

theorem of_digit?_base58 {c : Char} {d : Nat} (h : digit? base58 false c = some d) :
    d < 58 ∧ c = base58Char d := by
  obtain ⟨hlt, hget, -⟩ := List.idxOf?_eq_some_iff.1 h
  refine ⟨hlt, ?_⟩
  rw [base58Char, List.getD_eq_getElem?_getD, List.getElem?_eq_getElem hlt]
  exact hget.symm

/-- Characters are base 58 exactly if they are those of digits. -/
theorem mapM_digit?_base58_eq_some_iff {cs : List Char} {ds : List Nat} :
    cs.mapM (digit? base58 false) = some ds ↔ (∀ d ∈ ds, d < 58) ∧ cs = ds.map base58Char := by
  induction cs generalizing ds with
  | nil => cases ds <;> simp
  | cons c cs ih =>
    rw [List.mapM_cons]
    constructor
    · intro h
      obtain ⟨d, hd, h⟩ := Option.bind_eq_some_iff.1 h
      obtain ⟨rest, hrest, h⟩ := Option.bind_eq_some_iff.1 h
      obtain rfl := Option.some.inj h
      obtain ⟨hlt, rfl⟩ := of_digit?_base58 hd
      obtain ⟨hrestlt, rfl⟩ := ih.1 hrest
      exact ⟨List.forall_mem_cons.2 ⟨hlt, hrestlt⟩, rfl⟩
    · rintro ⟨hlt, hcs⟩
      cases ds with
      | nil => cases hcs
      | cons d ds =>
        obtain ⟨rfl, rfl⟩ := List.cons.inj hcs
        obtain ⟨hd, hds⟩ := List.forall_mem_cons.1 hlt
        rw [digit?_base58Char hd, ih.2 ⟨hds, rfl⟩]
        rfl

/-- A text with a known code spells what its digits do. -/
theorem decode_eq_ok_iff {text : String} {code : Char} {digits : List Char} {encoding : Encoding}
    {anyCase : Bool} {bytes : Bytes} (htext : text.toList = code :: digits)
    (hcode : encoding? code = some (encoding, anyCase)) :
    decode text = .ok bytes ↔ encoding.decode? anyCase digits = some bytes := by
  rw [decode, htext]
  simp only [hcode]
  cases encoding.decode? anyCase digits <;> simp

/-- **A text in base 58 spells exactly the byte string that it is written for.** -/
theorem decode_base58_eq_ok_iff {cs : List Char} {bytes : Bytes} :
    decode (String.ofList ('z' :: cs)) = .ok bytes ↔ cs = base58Chars bytes := by
  rw [decode_eq_ok_iff String.toList_ofList rfl]
  show (cs.mapM (digit? base58 false)).map (Number.bytes 58) = some bytes ↔ _
  rw [base58Chars]
  constructor
  · intro h
    obtain ⟨ds, hds, rfl⟩ := Option.map_eq_some_iff.1 h
    obtain ⟨hlt, rfl⟩ := mapM_digit?_base58_eq_some_iff.1 hds
    rw [Number.digits_bytes (by decide) hlt]
  · rintro rfl
    rw [mapM_digit?_base58_eq_some_iff.2
      ⟨Number.lt_of_mem_digits (by decide) bytes, rfl⟩, Option.map_some,
      Number.bytes_digits (by decide)]

/-- A byte string is read back from its text. -/
@[simp] theorem decode_encodeBase58 (bytes : Bytes) : decode (encodeBase58 bytes) = .ok bytes :=
  decode_base58_eq_ok_iff.2 rfl

/-- A text that starts with the code of base 58 and can be read is the one that is written. -/
theorem encodeBase58_of_decode {text : String} {bytes : Bytes}
    (hcode : text.toList.head? = some 'z')
    (h : decode text = .ok bytes) : encodeBase58 bytes = text := by
  obtain ⟨cs, hcs⟩ := List.head?_eq_some_iff.1 hcode
  obtain rfl : text = String.ofList ('z' :: cs) := by rw [← hcs, String.ofList_toList]
  rw [encodeBase58, ← decode_base58_eq_ok_iff.1 h]

end SealedEnvelope.Multibase
