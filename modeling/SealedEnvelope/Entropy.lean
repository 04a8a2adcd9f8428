import SealedEnvelope.Digest.Sha256

/-!
# Random octets

Keys and nonces are drawn from a source of octets that is handed on from step to
step: each draw takes the next octets, and what was drawn is never seen again.  A
source starts with octets that are given one by one and goes on with an infinite
sequence, so it never runs dry.  What may happen is that a computation draws again
and again and never comes to an end.
-/

namespace SealedEnvelope

/-- A source of octets. -/
structure Entropy where
  /-- The octets that come first. -/
  queued : Bytes
  /-- The octets that come after them. -/
  later : Nat → UInt8
  /-- How many of the later octets were drawn. -/
  used : Nat

/-- A computation that draws octets.  It gives nothing if it draws for ever. -/
abbrev Draw := StateT Entropy Option

namespace Entropy

/-- The next `n` octets. -/
def next (source : Entropy) (n : Nat) : Bytes :=
  source.queued.take n ++
    (List.range (n - source.queued.length)).map fun i => source.later (source.used + i)

@[simp] theorem length_next (source : Entropy) (n : Nat) : (source.next n).length = n := by
  simp [next]; omega

/-- The source without its next `n` octets. -/
def skip (source : Entropy) (n : Nat) : Entropy :=
  { source with
    queued := source.queued.drop n
    used := source.used + (n - source.queued.length) }

/-- Draws `n` octets. -/
def draw (n : Nat) : Draw (Octets n) := fun source =>
  some (⟨source.next n, source.length_next n⟩, source.skip n)

/-- The octets of a tape and then the digests of a seed with the numbers 0, 1, …
behind it. -/
def ofTape (tape seed : Bytes) : Entropy where
  queued := tape
  later := fun i =>
    (Sha256.digest (seed ++ Bytes.ofNatBE 4 (i / 32))).getD (i % 32) 0
  used := 0

end Entropy
end SealedEnvelope
