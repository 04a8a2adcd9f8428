import SealedEnvelope.Cipher.Aes.Key

/-!
# Wrapping keys

A key is wrapped as a list of half blocks that the cipher mixes with a running half
block, six times over.  The running half starts as a constant, and unwrapping checks
that it is that constant again.

Each step is undone by itself, the steps in reverse order: `unwrapPass` goes through
the halves from the last to the first, which is why it recurses before it deciphers.
-/

namespace SealedEnvelope.Aes

/-- Half a block. -/
structure Half where
  left : Column
  right : Column
  deriving DecidableEq, Repr

namespace Half

/-- Octet by octet exclusive or. -/
def xor (x y : Half) : Half := ⟨x.left.xor y.left, x.right.xor y.right⟩

/-- The half block of a number, the most significant octet first. -/
def ofNat (n : Nat) : Half := ⟨.ofNat (n >>> 32), .ofNat n⟩

/-- Two halves as a block. -/
def join (x y : Half) : Block := ⟨x.left, x.right, y.left, y.right⟩

/-- The octets of a half block. -/
def toBytes (x : Half) : Bytes := x.left.toBytes ++ x.right.toBytes

/-- The octets of half blocks. -/
def listToBytes (halves : List Half) : Bytes := halves.flatMap toBytes

/-- The half blocks of a byte string whose length is a multiple of eight. -/
def listOfBytes? : Bytes → Option (List Half)
  | [] => some []
  | a :: b :: c :: d :: e :: f :: g :: h :: rest =>
    (listOfBytes? rest).map (⟨⟨a, b, c, d⟩, ⟨e, f, g, h⟩⟩ :: ·)
  | _ => none

@[simp] theorem listOfBytes?_listToBytes (halves : List Half) :
    listOfBytes? (listToBytes halves) = some halves := by
  induction halves with
  | nil => rfl
  | cons half rest ih =>
    show listOfBytes? (half.toBytes ++ listToBytes rest) = _
    simp only [toBytes, Column.toBytes, List.cons_append, List.nil_append, listOfBytes?, ih,
      Option.map_some]

/-- Reading half blocks gives the octets back. -/
theorem listToBytes_of_listOfBytes? {bytes : Bytes} {halves : List Half}
    (h : listOfBytes? bytes = some halves) : listToBytes halves = bytes := by
  fun_induction listOfBytes? bytes generalizing halves with
  | case1 => cases h; rfl
  | case2 a b c d e f g h' rest ih =>
    obtain ⟨others, hrest, rfl⟩ := Option.map_eq_some_iff.1 h
    show _ ++ listToBytes others = _
    rw [ih hrest]
    rfl
  | case3 => cases h

theorem xor_xor_self (x y : Half) : (x.xor y).xor y = x := by
  simp [xor, Column.xor_xor_self]

end Half

/-- The first half of a block. -/
def Block.firstHalf (x : Block) : Half := ⟨x.p, x.q⟩

/-- The second half of a block. -/
def Block.secondHalf (x : Block) : Half := ⟨x.r, x.s⟩

@[simp] theorem Block.join_halves (x : Block) : x.firstHalf.join x.secondHalf = x := rfl

@[simp] theorem Half.firstHalf_join (x y : Half) : (x.join y).firstHalf = x := rfl

@[simp] theorem Half.secondHalf_join (x y : Half) : (x.join y).secondHalf = y := rfl

namespace KeyWrap

/-- What the running half starts as. -/
def initial : Half := ⟨⟨0xa6, 0xa6, 0xa6, 0xa6⟩, ⟨0xa6, 0xa6, 0xa6, 0xa6⟩⟩

/-- Mixes each half with the running one; the steps are numbered from `step` on. -/
def wrapPass (key : Key) : (step : Nat) → Half → List Half → Half × List Half
  | _, running, [] => (running, [])
  | step, running, half :: rest =>
    let mixed := key.encipher (running.join half)
    let (last, others) := wrapPass key (step + 1) (mixed.firstHalf.xor (.ofNat step)) rest
    (last, mixed.secondHalf :: others)

/-- Undoes `wrapPass`. -/
def unwrapPass (key : Key) : (step : Nat) → Half → List Half → Half × List Half
  | _, running, [] => (running, [])
  | step, running, half :: rest =>
    let (later, others) := unwrapPass key (step + 1) running rest
    let mixed := key.decipher ((later.xor (.ofNat step)).join half)
    (mixed.firstHalf, mixed.secondHalf :: others)

/-- Passes over all halves; the steps of the first are numbered from `step` on. -/
def wrapPasses (key : Key) : (passes step : Nat) → Half → List Half → Half × List Half
  | 0, _, running, halves => (running, halves)
  | passes + 1, step, running, halves =>
    let (running', halves') := wrapPass key step running halves
    wrapPasses key passes (step + halves.length) running' halves'

/-- Undoes `wrapPasses`. -/
def unwrapPasses (key : Key) : (passes step : Nat) → Half → List Half → Half × List Half
  | 0, _, running, halves => (running, halves)
  | passes + 1, step, running, halves =>
    let (running', halves') := unwrapPasses key passes (step + halves.length) running halves
    unwrapPass key step running' halves'

theorem unwrapPass_wrapPass (key : Key) (step : Nat) (running : Half) (halves : List Half) :
    unwrapPass key step (wrapPass key step running halves).1 (wrapPass key step running halves).2 =
      (running, halves) := by
  induction halves generalizing step running with
  | nil => rfl
  | cons half rest ih => simp [wrapPass, unwrapPass, ih, Half.xor_xor_self]

theorem wrapPass_unwrapPass (key : Key) (step : Nat) (running : Half) (halves : List Half) :
    wrapPass key step (unwrapPass key step running halves).1
      (unwrapPass key step running halves).2 = (running, halves) := by
  induction halves generalizing step running with
  | nil => rfl
  | cons half rest ih => simp [wrapPass, unwrapPass, ih, Half.xor_xor_self]

@[simp] theorem length_wrapPass (key : Key) (step : Nat) (running : Half) (halves : List Half) :
    (wrapPass key step running halves).2.length = halves.length := by
  induction halves generalizing step running with
  | nil => rfl
  | cons half rest ih => simp [wrapPass, ih]

@[simp] theorem length_unwrapPass (key : Key) (step : Nat) (running : Half) (halves : List Half) :
    (unwrapPass key step running halves).2.length = halves.length := by
  induction halves generalizing step running with
  | nil => rfl
  | cons half rest ih => simp [unwrapPass, ih]

@[simp] theorem length_wrapPasses (key : Key) (passes step : Nat) (running : Half)
    (halves : List Half) :
    (wrapPasses key passes step running halves).2.length = halves.length := by
  induction passes generalizing step running halves with
  | zero => rfl
  | succ passes ih => simp [wrapPasses, ih]

@[simp] theorem length_unwrapPasses (key : Key) (passes step : Nat) (running : Half)
    (halves : List Half) :
    (unwrapPasses key passes step running halves).2.length = halves.length := by
  induction passes generalizing step running halves with
  | zero => rfl
  | succ passes ih => simp [unwrapPasses, ih]

theorem unwrapPasses_wrapPasses (key : Key) (passes step : Nat) (running : Half)
    (halves : List Half) :
    unwrapPasses key passes step (wrapPasses key passes step running halves).1
      (wrapPasses key passes step running halves).2 = (running, halves) := by
  induction passes generalizing step running halves with
  | zero => rfl
  | succ passes ih =>
    simp only [wrapPasses, unwrapPasses, length_wrapPasses, length_wrapPass]
    have := ih (step + halves.length) (wrapPass key step running halves).1
      (wrapPass key step running halves).2
    rw [this]
    exact unwrapPass_wrapPass key step running halves

theorem wrapPasses_unwrapPasses (key : Key) (passes step : Nat) (running : Half)
    (halves : List Half) :
    wrapPasses key passes step (unwrapPasses key passes step running halves).1
      (unwrapPasses key passes step running halves).2 = (running, halves) := by
  induction passes generalizing step running halves with
  | zero => rfl
  | succ passes ih =>
    simp only [wrapPasses, unwrapPasses, length_unwrapPasses, length_unwrapPass,
      wrapPass_unwrapPass, ih]

/-- How often the halves are gone through. -/
def passCount : Nat := 6

/-- Wraps a key whose length is a multiple of eight. -/
def wrap? (key : Key) (secret : Bytes) : Option Bytes := do
  let halves ← Half.listOfBytes? secret
  let (running, wrapped) := wrapPasses key passCount 1 initial halves
  some (Half.listToBytes (running :: wrapped))

/-- Unwraps a key, if the running half ends as it should. -/
def unwrap? (key : Key) (wrapped : Bytes) : Option Bytes :=
  match Half.listOfBytes? wrapped with
  | none | some [] => none
  | some (running :: halves) =>
    let (first, secret) := unwrapPasses key passCount 1 running halves
    if first = initial then some (Half.listToBytes secret) else none

/-- Unwrapping accepts exactly what wrapping makes. -/
theorem unwrap?_eq_some_iff {key : Key} {wrapped secret : Bytes} :
    unwrap? key wrapped = some secret ↔ wrap? key secret = some wrapped := by
  constructor
  · intro h
    unfold unwrap? at h
    split at h
    · cases h
    · cases h
    · next running halves hhalves =>
      dsimp only at h
      split at h
      · next hfirst =>
        have hwrap := wrapPasses_unwrapPasses key passCount 1 running halves
        have hbytes := Half.listToBytes_of_listOfBytes? hhalves
        cases h
        rw [hfirst] at hwrap
        simp only [wrap?, Half.listOfBytes?_listToBytes, Option.bind_eq_bind, Option.bind_some,
          hwrap, hbytes]
      · cases h
  · intro h
    simp only [wrap?, Option.bind_eq_bind, Option.bind_eq_some_iff, Option.some.injEq] at h
    obtain ⟨halves, hhalves, rfl⟩ := h
    have hunwrap := unwrapPasses_wrapPasses key passCount 1 initial halves
    simp only [unwrap?, Half.listOfBytes?_listToBytes, hunwrap, if_pos,
      Half.listToBytes_of_listOfBytes? hhalves]

end KeyWrap
end SealedEnvelope.Aes
