import SealedEnvelope.Proofs.Octets
import SealedEnvelope.Proofs.Sending.Sealing

/-!
# What a key is derived from can be taken apart

A key is the start of one digest, and everything it depends on is hashed in one string of octets
(`Derivation.input?`).  If two such strings could be equal although something that they are made of
is not, then one party could take a secret for something else than the other one does.

That does not happen (`Derivation.input_separates`).  A part of unknown length comes behind its
length, so it ends where it ends whatever follows it (`Derivation.counted?_append_inj`), and so the
parts come off one after the other from the front.  The secret has no length in front of it: secrets
are taken to be of one length, as they are for keys of one kind.  The tag has none if it is empty,
but it comes last, and nothing at all is not what any other tag is written as.
-/

namespace SealedEnvelope

namespace Derivation

/-- What a key can be derived from: the parts fit the octets for their lengths, and a digest is
long enough for the key. -/
structure Fits (derivation : Derivation) : Prop where
  keySize_le : derivation.keySize ≤ 32
  algorithm : (Bytes.ofText derivation.algorithm).length < 0x100000000
  partyU : derivation.partyU.length < 0x100000000
  partyV : derivation.partyV.length < 0x100000000
  tag : derivation.tag.length < 0x100000000

/-! ## One part -/

theorem counted?_eq_some_iff {part octets : Bytes} :
    counted? part = some octets ↔
      part.length < 0x100000000 ∧ octets = Bytes.ofNatBE 4 part.length ++ part := by
  unfold counted?
  split
  · next h => simp [h, eq_comm]
  · next h => simp [h]

/-- A part ends where its length says, whatever follows it. -/
theorem counted?_append_inj {a b x y rest rest' : Bytes} (ha : counted? a = some x)
    (hb : counted? b = some y) (h : x ++ rest = y ++ rest') : a = b ∧ rest = rest' := by
  obtain ⟨halength, rfl⟩ := counted?_eq_some_iff.1 ha
  obtain ⟨hblength, rfl⟩ := counted?_eq_some_iff.1 hb
  have hwidths : (Bytes.ofNatBE 4 a.length).length = (Bytes.ofNatBE 4 b.length).length := by
    rw [Bytes.length_ofNatBE, Bytes.length_ofNatBE]
  rw [List.append_assoc, List.append_assoc] at h
  obtain ⟨hcounts, hparts⟩ := List.append_inj h hwidths
  exact List.append_inj hparts (Bytes.ofNatBE_inj halength hblength hcounts)

/-- The tag as it is hashed: nothing, if it is empty. -/
def countedTag? (tag : Bytes) : Option Bytes :=
  if tag.isEmpty then some [] else counted? tag

/-- An empty tag is written like no other one. -/
theorem countedTag?_inj {a b octets : Bytes} (ha : countedTag? a = some octets)
    (hb : countedTag? b = some octets) : a = b := by
  have hcounted {tag : Bytes} (h : counted? tag = some []) : False := by
    obtain ⟨-, hnil⟩ := counted?_eq_some_iff.1 h
    have hlength := congrArg List.length hnil
    rw [List.length_nil, List.length_append, Bytes.length_ofNatBE] at hlength
    omega
  unfold countedTag? at ha hb
  split at ha <;> split at hb
  · next hempty hempty' => rw [List.isEmpty_iff.1 hempty, List.isEmpty_iff.1 hempty']
  · exact (hcounted (ha ▸ hb)).elim
  · exact (hcounted (hb ▸ ha)).elim
  · have hsame : octets ++ [] = octets ++ [] := rfl
    exact (counted?_append_inj ha hb hsame).1

/-! ## All parts -/

variable {a b : Derivation} {secret secret' input : Bytes}

/-- What is hashed, part by part. -/
theorem input?_eq_some_iff {derivation : Derivation} :
    derivation.input? secret = some input ↔
      ∃ algorithm partyU partyV tag, counted? (Bytes.ofText derivation.algorithm) = some algorithm ∧
        counted? derivation.partyU = some partyU ∧ counted? derivation.partyV = some partyV ∧
        countedTag? derivation.tag = some tag ∧
        input = [0, 0, 0, 1] ++ (secret ++ (algorithm ++ (partyU ++ (partyV ++
          (Bytes.ofNatBE 4 (8 * derivation.keySize) ++ tag))))) := by
  by_cases hempty : derivation.tag.isEmpty = true
  · simp only [input?, countedTag?, if_pos hempty, Option.bind_eq_bind, Option.bind_eq_some_iff,
      Option.some.injEq, List.append_assoc, exists_and_left, @eq_comm _ input]
  · simp only [input?, countedTag?, if_neg hempty, Option.bind_eq_bind, Option.bind_eq_some_iff,
      Option.some.injEq, List.append_assoc, exists_and_left, @eq_comm _ input]

/-- **The parts of what is hashed are told apart**, as long as the secrets are of one length. -/
theorem eq_of_input?_eq (hlength : secret.length = secret'.length) (hsize : a.keySize ≤ 32)
    (hsize' : b.keySize ≤ 32) (h : a.input? secret = some input)
    (h' : b.input? secret' = some input) : secret = secret' ∧ a = b := by
  obtain ⟨_, _, _, tag, halgorithm, hpartyU, hpartyV, htag, rfl⟩ := input?_eq_some_iff.1 h
  obtain ⟨_, _, _, tag', halgorithm', hpartyU', hpartyV', htag', heq⟩ := input?_eq_some_iff.1 h'
  obtain ⟨hsecret, heq⟩ := List.append_inj (List.append_cancel_left heq) hlength
  obtain ⟨halg, heq⟩ := counted?_append_inj halgorithm halgorithm' heq
  obtain ⟨hu, heq⟩ := counted?_append_inj hpartyU hpartyU' heq
  obtain ⟨hv, heq⟩ := counted?_append_inj hpartyV hpartyV' heq
  obtain ⟨hbits, rfl⟩ := List.append_inj heq (by rw [Bytes.length_ofNatBE, Bytes.length_ofNatBE])
  have hbits := Bytes.ofNatBE_inj (by omega) (by omega) hbits
  obtain ⟨_, _, _, _, _⟩ := a
  obtain ⟨_, _, _, _, _⟩ := b
  obtain rfl := Bytes.ofText_injective halg
  obtain rfl : _ = _ := hu
  obtain rfl : _ = _ := hv
  obtain rfl := Nat.eq_of_mul_eq_mul_left (by decide) hbits
  obtain rfl := countedTag?_inj htag htag'
  exact ⟨hsecret, rfl⟩

/-- What fits is hashed, and the key is as long as it is asked for. -/
theorem Fits.exists_key? (h : a.Fits) (secret : Bytes) :
    ∃ input, a.input? secret = some input ∧
      a.key? secret = some ((Sha256.digest input).take a.keySize) ∧
      ((Sha256.digest input).take a.keySize).length = a.keySize := by
  obtain ⟨tag, htag⟩ : ∃ tag, countedTag? a.tag = some tag := by
    unfold countedTag?
    split
    · exact ⟨[], rfl⟩
    · exact exists_counted? h.tag
  obtain ⟨algorithm, halgorithm⟩ := exists_counted? h.algorithm
  obtain ⟨partyU, hpartyU⟩ := exists_counted? h.partyU
  obtain ⟨partyV, hpartyV⟩ := exists_counted? h.partyV
  obtain ⟨input, hinput⟩ : ∃ input, a.input? secret = some input :=
    ⟨_, input?_eq_some_iff.2
      ⟨algorithm, partyU, partyV, tag, halgorithm, hpartyU, hpartyV, htag, rfl⟩⟩
  refine ⟨input, hinput, ?_, ?_⟩
  · rw [key?, if_pos h.keySize_le, hinput]
    rfl
  · rw [List.length_take, Sha256.length_digest, Nat.min_eq_left h.keySize_le]

/-- **What a key is derived from separates all that it depends on.**  Two keys are each the start of
one digest, and what is hashed for one of them is what is hashed for the other one only if the
secrets, the algorithms, both parties, the lengths of the keys and the tags are the same. -/
theorem input_separates (ha : a.Fits) (hb : b.Fits) (hlength : secret.length = secret'.length) :
    ∃ x y, a.input? secret = some x ∧ b.input? secret' = some y ∧
      a.key? secret = some ((Sha256.digest x).take a.keySize) ∧
      b.key? secret' = some ((Sha256.digest y).take b.keySize) ∧
      ((Sha256.digest x).take a.keySize).length = a.keySize ∧
      (x = y ↔ secret = secret' ∧ a = b) := by
  obtain ⟨x, hx, hkey, hkeylength⟩ := ha.exists_key? secret
  obtain ⟨y, hy, hkey', -⟩ := hb.exists_key? secret'
  refine ⟨x, y, hx, hy, hkey, hkey', hkeylength, fun heq => ?_, fun ⟨hsecret, hsame⟩ => ?_⟩
  · exact eq_of_input?_eq hlength ha.keySize_le hb.keySize_le hx (heq ▸ hy)
  · subst hsecret hsame
    exact Option.some.inj (hx.symm.trans hy)

/-- A letter moves from one party to the other, a key becomes longer, and an empty tag becomes one
that looks like the length of an empty one: each time something else is hashed. -/
theorem input_separates_of_moved_letters :
    let alice : Derivation := ⟨"ECDH-1PU+A128KW", Bytes.ofText "Alice", Bytes.ofText "Bob", 16, []⟩
    let alic : Derivation :=
      { alice with partyU := Bytes.ofText "Alic", partyV := Bytes.ofText "eBob" }
    let longer : Derivation := { alice with keySize := 32 }
    let tagged : Derivation := { alice with tag := [0, 0, 0, 0] }
    let secret : Bytes := List.replicate 32 7
    alice.input? secret ≠ alic.input? secret ∧ alice.input? secret ≠ longer.input? secret ∧
      alice.input? secret ≠ tagged.input? secret := by
  intro alice alic longer tagged secret
  have halice : alice.Fits := ⟨by decide, by decide, by decide, by decide, by decide⟩
  have hother {other : Derivation} (hfits : other.Fits) (hne : alice ≠ other) :
      alice.input? secret ≠ other.input? secret := by
    obtain ⟨x, y, hx, hy, -, -, -, hiff⟩ :=
      @input_separates alice other secret secret halice hfits rfl
    rw [hx, hy]
    exact fun h => hne (hiff.1 (Option.some.inj h)).2
  exact ⟨hother ⟨by decide, by decide, by decide, by decide, by decide⟩ (by decide),
    hother ⟨by decide, by decide, by decide, by decide, by decide⟩ (by decide),
    hother ⟨by decide, by decide, by decide, by decide, by decide⟩ (by decide)⟩

end Derivation

end SealedEnvelope
