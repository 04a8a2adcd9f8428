import SealedEnvelope.Proofs.RoundTrip.Key

/-!
# Points of secp256k1 in octets

A point has up to three spellings: a tag for the parity of its second coordinate and the first
coordinate, the tag `05` and the first coordinate if the second one is even, and the tag `04` and
both coordinates.  Exactly these are read, and each of them as that point
(`Point.ofBytes?_eq_some_iff`).

## The second coordinate

The prime leaves the remainder 3 when it is divided by 4, so a power of a square is a root of it
(`root_mul_root`).  A square has two roots, one even and one odd, unless it is zero.  No point has
a second coordinate that is zero, because `-7` is no cube (`Point.y_ne_zero`), and so a tag and the
first coordinate always leave one point.
-/

namespace SealedEnvelope.Secp256k1

open SealedEnvelope.Modular (residue)

/-! ## Roots -/

/-- The power that is taken for the root of a square is a root. -/
theorem root_mul_root {x y : Element} (h : y * y = x) : root x * root x = x := by
  refine Modular.residue_injective ?_
  have hsquare : residue x = residue y * residue y := by rw [← h, Modular.residue_mul]
  have hexponent : 2 * ((greatest + 2) / 4 + (greatest + 2) / 4) = greatest + 2 := by decide
  rw [root, Modular.residue_mul, Modular.residue_power, ← pow_add, hsquare]
  by_cases hzero : residue y = 0
  · rw [hzero, mul_zero, zero_pow (by decide)]
  · calc (residue y * residue y) ^ ((greatest + 2) / 4 + (greatest + 2) / 4)
        = residue y ^ (greatest + 2) := by rw [← sq, ← pow_mul, hexponent]
      _ = residue y ^ (greatest + 1 - 1) * residue y ^ 2 := by rw [← pow_add]; rfl
      _ = residue y * residue y := by rw [ZMod.pow_card_sub_one_eq_one hzero, one_mul, sq]

/-- No point has a second coordinate that is zero. -/
theorem Point.y_ne_zero (p : Point) : residue p.y ≠ 0 := by
  intro hzero
  have hcurve := congrArg residue p.onCurve
  rw [Modular.residue_mul, residue_cubic, hzero, mul_zero] at hcurve
  have hcube : residue p.x ^ 3 = residue (element 0 - element 7) := by
    rw [Modular.residue_sub, element, element, Modular.residue_ofNat, Modular.residue_ofNat]
    push_cast
    linear_combination -hcurve
  have hx : residue p.x ≠ 0 := by
    intro hx
    rw [hx, mul_zero, zero_add] at hcurve
    exact char_ne_seven hcurve.symm
  -- The power is one for every cube, but for `-7` it is another number.
  have hpower : residue (Modular.power (element 0 - element 7) (greatest / 3)) = residue 1 := by
    rw [Modular.residue_power, ← hcube, ← pow_mul, Modular.residue_one]
    exact ZMod.pow_card_sub_one_eq_one hx
  have hone := Modular.residue_injective hpower
  revert hone
  decide +kernel

/-! ## Parity -/

/-- The negative of an element that is not zero has the other parity. -/
theorem parity_neg {y : Element} (h : residue y ≠ 0) :
    (element 0 - y).val % 2 = 1 - y.val % 2 := by
  have hpos : y.val ≠ 0 := fun hval => h (by rw [show y = 0 from Fin.ext hval]; exact Nat.cast_zero)
  have hlt := y.isLt
  have hodd : (greatest + 1) % 2 = 1 := by decide
  have hval : (element 0 - y).val = greatest + 1 - y.val := by
    show (greatest + 1 - y.val + 0) % (greatest + 1) = _
    rw [Nat.add_zero, Nat.mod_eq_of_lt (by omega)]
  omega

theorem residue_neg (y : Element) : residue (element 0 - y) = -residue y := by
  rw [Modular.residue_sub, element, Modular.residue_ofNat, Nat.cast_zero, zero_sub]

namespace Point

theorem of?_eq_some_iff {x y : Element} {p : Point} : of? x y = some p ↔ p.x = x ∧ p.y = y := by
  constructor
  · intro h
    unfold of? at h
    split at h
    · obtain rfl := Option.some.inj h
      exact ⟨rfl, rfl⟩
    · cases h
  · rintro ⟨rfl, rfl⟩
    exact p.of?_coordinates

/-- A point is found by its first coordinate and the parity of the second one. -/
theorem decompress?_eq_some_iff {x : Element} {odd : Bool} {p : Point} :
    decompress? x odd = some p ↔ p.x = x ∧ (p.y.val % 2 == 1) = odd := by
  rw [decompress?, of?_eq_some_iff]
  refine and_congr_right ?_
  rintro rfl
  -- The root that is computed is the second coordinate or its negative.
  have hsquare : residue (root (cubic p.x)) * residue (root (cubic p.x)) =
      residue p.y * residue p.y := by
    rw [← Modular.residue_mul, ← Modular.residue_mul, root_mul_root p.onCurve, p.onCurve]
  have hparity := parity_neg p.y_ne_zero
  have hne : p.y ≠ element 0 - p.y := fun h => by
    have hsame : p.y.val % 2 = (element 0 - p.y).val % 2 := congrArg (·.val % 2) h
    omega
  rcases mul_self_eq_mul_self_iff.mp hsquare with hroot | hroot
  · rw [Modular.residue_injective hroot]
    split
    · next hodd => exact iff_of_true rfl hodd
    · next hodd => exact iff_of_false hne hodd
  · have hother : root (cubic p.x) = element 0 - p.y :=
      Modular.residue_injective (hroot.trans (residue_neg p.y).symm)
    have hback : element 0 - (element 0 - p.y) = p.y :=
      Modular.residue_injective (by rw [residue_neg, residue_neg, neg_neg])
    have hflip : ((element 0 - p.y).val % 2 == 1) = !(p.y.val % 2 == 1) := by
      rw [hparity]
      rcases Nat.mod_two_eq_zero_or_one p.y.val with h | h <;> rw [h] <;> rfl
    rw [hother, hback, hflip]
    split
    · next hodd => exact iff_of_false hne (by rw [← hodd]; exact Bool.self_ne_not _)
    · next hodd => exact iff_of_true rfl (not_ne_iff.mp (by rwa [Bool.not_eq] at hodd))

end Point

/-! ## Spellings -/

theorem element?_eq_some_iff {bytes : Bytes} {x : Element} :
    element? bytes = some x ↔ bytes = elementBytes x := by
  constructor
  · intro h
    unfold element? at h
    dsimp only at h
    split at h
    · next hbytes =>
      obtain rfl := Option.some.inj h
      have hwritten := Bytes.ofNatBE_toNatBE bytes
      rw [hbytes.1] at hwritten
      exact hwritten.symm
    · cases h
  · rintro rfl
    exact element?_elementBytes x

namespace Point

/-- How a point can be spelled. -/
inductive Spells (p : Point) : Bytes → Prop
  | compressed : Spells p p.toBytes
  | compact (heven : p.y.val % 2 = 0) : Spells p (0x05 :: elementBytes p.x)
  | uncompressed : Spells p (0x04 :: (elementBytes p.x ++ elementBytes p.y))

theorem length_toBytes (p : Point) : p.toBytes.length = 33 :=
  congrArg (· + 1) (length_elementBytes p.x)

/-- One coordinate behind a tag for the parity of the other one. -/
theorem decompress_eq_some_iff {rest : Bytes} {odd : Bool} {p : Point} :
    (element? rest >>= fun x => decompress? x odd) = some p ↔
      rest = elementBytes p.x ∧ (p.y.val % 2 == 1) = odd := by
  constructor
  · intro h
    obtain ⟨x, hx, h⟩ := Option.bind_eq_some_iff.1 h
    obtain ⟨rfl, hodd⟩ := decompress?_eq_some_iff.1 h
    exact ⟨element?_eq_some_iff.1 hx, hodd⟩
  · rintro ⟨rfl, hodd⟩
    rw [element?_elementBytes]
    exact decompress?_eq_some_iff.2 ⟨rfl, hodd⟩

theorem toBytes_of_even {p : Point} (h : p.y.val % 2 = 0) :
    p.toBytes = 0x02 :: elementBytes p.x := by
  rw [toBytes, if_pos h]

theorem toBytes_of_odd {p : Point} (h : p.y.val % 2 = 1) :
    p.toBytes = 0x03 :: elementBytes p.x := by
  rw [toBytes, if_neg (by omega)]

theorem Spells.length {p : Point} {bytes : Bytes} (h : p.Spells bytes) :
    bytes.length = 33 ∨ bytes.length = 65 := by
  cases h with
  | compressed => exact .inl p.length_toBytes
  | compact heven => exact .inl (congrArg (· + 1) (length_elementBytes p.x))
  | uncompressed =>
    rw [List.length_cons, List.length_append, length_elementBytes, length_elementBytes]
    exact .inr rfl

/-- **A point is read from each of its spellings, and from nothing else.** -/
theorem ofBytes?_eq_some_iff {bytes : Bytes} {p : Point} :
    ofBytes? bytes = some p ↔ p.Spells bytes := by
  constructor
  · intro h
    unfold ofBytes? at h
    split at h
    · cases h
    · next tag rest =>
      split at h
      · next htag =>
        obtain ⟨rfl, hparity⟩ := decompress_eq_some_iff.1 h
        have heven : p.y.val % 2 = 0 := by
          rw [beq_eq_false_iff_ne] at hparity
          omega
        rcases htag with rfl | rfl
        · rw [← toBytes_of_even heven]
          exact .compressed
        · exact .compact heven
      · split at h
        · next htag =>
          obtain ⟨rfl, hparity⟩ := decompress_eq_some_iff.1 h
          rw [htag, ← toBytes_of_odd (beq_iff_eq.1 hparity)]
          exact .compressed
        · split at h
          · next htag =>
            obtain ⟨x, hx, h⟩ := Option.bind_eq_some_iff.1 h
            obtain ⟨y, hy, h⟩ := Option.bind_eq_some_iff.1 h
            obtain ⟨rfl, rfl⟩ := of?_eq_some_iff.1 h
            rw [htag, ← List.take_append_drop 32 rest, element?_eq_some_iff.1 hx,
              element?_eq_some_iff.1 hy]
            exact .uncompressed
          · cases h
  · intro h
    cases h with
    | compressed =>
      rcases Nat.mod_two_eq_zero_or_one p.y.val with heven | hodd
      · rw [toBytes_of_even heven, ofBytes?, if_pos (.inl rfl)]
        exact decompress_eq_some_iff.2 ⟨rfl, by rw [heven]; rfl⟩
      · rw [toBytes_of_odd hodd, ofBytes?, if_neg (by decide), if_pos rfl]
        exact decompress_eq_some_iff.2 ⟨rfl, by rw [hodd]; rfl⟩
    | compact heven =>
      rw [ofBytes?, if_pos (.inr rfl)]
      exact decompress_eq_some_iff.2 ⟨rfl, by rw [heven]; rfl⟩
    | uncompressed => exact ofBytes?_coordinates p

end Point

end SealedEnvelope.Secp256k1
