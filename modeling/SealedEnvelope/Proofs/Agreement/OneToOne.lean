import SealedEnvelope.Proofs.Sending.Sealing

/-!
# Content keys and wrapped keys, one to one

What a sender wraps is what the recipient unwraps, and nothing else is unwrapped
(`Agreement.wrapping_oneToOne`): a wrapped key stands for one content key, a content key has one
wrapped key, and a wrapped key is eight octets longer than the content key.

Both ways to agree have the same shape: a secret is made on either side, and the key that wraps is
derived from it.  So it is enough that both sides make the same secret, and everything else is said
once (`Agreement.oneToOne_of_agreed`).
-/

namespace SealedEnvelope

/-! ## Lengths -/

theorem Aes.Half.length_listToBytes (halves : List Half) :
    (listToBytes halves).length = 8 * halves.length := by
  induction halves with
  | nil => rfl
  | cons half rest ih =>
    show (half.toBytes ++ listToBytes rest).length = _
    rw [List.length_append, ih, List.length_cons, Nat.mul_succ, Nat.add_comm]
    rfl

theorem Aes.KeyWrap.length_of_wrap? {key : Aes.Key} {secret wrapped : Bytes}
    (h : Aes.KeyWrap.wrap? key secret = some wrapped) : wrapped.length = secret.length + 8 := by
  simp only [wrap?, Option.bind_eq_bind, Option.bind_eq_some_iff, Option.some.injEq] at h
  obtain ⟨halves, hhalves, rfl⟩ := h
  rw [← Half.listToBytes_of_listOfBytes? hhalves, Half.length_listToBytes, Half.length_listToBytes,
    List.length_cons, length_wrapPasses, Nat.mul_succ]

namespace KeyWrap

variable {wrap : KeyWrap} {wrapping secret wrapped : Bytes}

/-- What is wrapped becomes eight octets longer. -/
theorem length_of_wrap? (h : wrap.wrap? wrapping secret = some wrapped) :
    wrapped.length = secret.length + 8 := by
  obtain ⟨cipher, -, h⟩ := Option.bind_eq_some_iff.1 h
  exact Aes.KeyWrap.length_of_wrap? h

theorem length_key_of_wrap? (h : wrap.wrap? wrapping secret = some wrapped) :
    wrapping.length = wrap.keySize := by
  obtain ⟨cipher, hcipher, -⟩ := Option.bind_eq_some_iff.1 h
  unfold cipher? at hcipher
  split at hcipher
  · next hlength => exact hlength
  · cases hcipher

end KeyWrap

/-! ## Both sides -/

/-- Whoever has the secret of one of two keys makes the same secret. -/
theorem Key.exchange_toPublic_iff {own peer known : Key} {shared : Bytes}
    (hown : own.hasSecret = true) (hpeer : peer.hasSecret = true)
    (hknown : known.toPublic = peer.toPublic) :
    peer.exchange own.toPublic = .ok shared ↔ own.exchange known = .ok shared :=
  ⟨fun h => exchange_comm h hown own.toPublic_toPublic.symm hknown,
    fun h => exchange_comm h hpeer hknown.symm own.toPublic_toPublic⟩

/-- The content keys of a cipher and what they are wrapped to belong together one to one. -/
structure OneToOne (encryption : ContentEncryption) (wrap : ContentKey → Except Error Bytes)
    (unwrap : Bytes → Except Error ContentKey) : Prop where
  /-- What is unwrapped is exactly what is wrapped. -/
  unwrap_eq_ok_iff : ∀ key wrapped,
    unwrap wrapped = .ok key ↔ key.encryption = encryption ∧ wrap key = .ok wrapped
  length_wrapped : ∀ key wrapped,
    unwrap wrapped = .ok key → wrapped.length = encryption.keySize + 8
  wrapped_unique : ∀ key wrapped other,
    unwrap wrapped = .ok key → unwrap other = .ok key → wrapped = other
  /-- If one key can be wrapped, all can. -/
  exists_wrapped : ∀ key wrapped, wrap key = .ok wrapped → ∀ other, ∃ w, wrap other = .ok w

namespace Agreement

/-- **If both sides make the same secret, wrapping is one to one.** -/
theorem oneToOne_of_agreed {sent received : Except Error Bytes}
    (h : ∀ secret, received = .ok secret ↔ sent = .ok secret) (agreement : Agreement)
    (wrap : KeyWrap) (encryption : ContentEncryption) (tag : Bytes) :
    OneToOne encryption
      (fun key => sent >>= fun secret => agreement.wrapUnder wrap secret tag key)
      (fun wrapped => received >>= fun secret =>
        agreement.unwrapUnder wrap secret tag encryption wrapped) := by
  have hunwrap : ∀ key wrapped,
      (received >>= fun secret => agreement.unwrapUnder wrap secret tag encryption wrapped) =
          .ok key ↔
        key.encryption = encryption ∧
          (sent >>= fun secret => agreement.wrapUnder wrap secret tag key) = .ok wrapped := by
    intro key wrapped
    simp only [bind_eq_ok_iff, h, unwrapUnder_eq_ok_iff]
    constructor
    · rintro ⟨secret, hsecret, hencryption, hwrapped⟩
      exact ⟨hencryption, secret, hsecret, hwrapped⟩
    · rintro ⟨hencryption, secret, hsecret, hwrapped⟩
      exact ⟨secret, hsecret, hencryption, hwrapped⟩
  refine ⟨hunwrap, fun key wrapped hkey => ?_, fun key wrapped other hkey hother => ?_,
    fun key wrapped hwrap other => ?_⟩
  · obtain ⟨rfl, hwrap⟩ := (hunwrap key wrapped).1 hkey
    obtain ⟨secret, -, hwrap⟩ := bind_eq_ok_iff.1 hwrap
    obtain ⟨wrapping, -, hwrapped⟩ := wrapUnder_eq_ok_iff.1 hwrap
    rw [KeyWrap.length_of_wrap? hwrapped, key.length_bytes]
  · have hwrap := ((hunwrap key wrapped).1 hkey).2
    exact Except.ok.inj (hwrap.symm.trans ((hunwrap key other).1 hother).2)
  · obtain ⟨secret, hsecret, hwrap⟩ := bind_eq_ok_iff.1 hwrap
    obtain ⟨wrapping, hwrapping, hwrapped⟩ := wrapUnder_eq_ok_iff.1 hwrap
    obtain ⟨w, hw⟩ := KeyWrap.exists_wrap? (KeyWrap.length_key_of_wrap? hwrapped) other
    exact ⟨w, bind_eq_ok_iff.2 ⟨secret, hsecret, wrapUnder_eq_ok_iff.2 ⟨wrapping, hwrapping, hw⟩⟩⟩

/-- **Wrapping after an agreement is one to one.**  The recipient has the public halves of the
sender's keys and the sender that of the recipient's, and each has the secrets of its own keys.
Then the recipient unwraps exactly what the sender wraps, with an anonymous sender and with a known
one. -/
theorem wrapping_oneToOne {ephemeral sender recipient known : Key}
    (hephemeral : ephemeral.hasSecret = true) (hsender : sender.hasSecret = true)
    (hrecipient : recipient.hasSecret = true) (hknown : known.toPublic = recipient.toPublic)
    (agreement : Agreement) (wrap : KeyWrap) (encryption : ContentEncryption) (tag : Bytes) :
    OneToOne encryption
        (EcdhEs.wrapKey agreement wrap ephemeral known)
        (EcdhEs.unwrapKey agreement wrap encryption ephemeral.toPublic recipient) ∧
      OneToOne encryption
        (fun key => Ecdh1Pu.wrapKey agreement wrap ephemeral sender known key tag)
        (fun wrapped => Ecdh1Pu.unwrapKey agreement wrap encryption ephemeral.toPublic
          sender.toPublic recipient wrapped tag) := by
  have hephemerals : ∀ shared,
      recipient.exchange ephemeral.toPublic = .ok shared ↔ ephemeral.exchange known = .ok shared :=
    fun _ => Key.exchange_toPublic_iff hephemeral hrecipient hknown
  have hstatics : ∀ shared,
      recipient.exchange sender.toPublic = .ok shared ↔ sender.exchange known = .ok shared :=
    fun _ => Key.exchange_toPublic_iff hsender hrecipient hknown
  -- with a known sender the secret is made of two, in the same order on both sides
  have hboth : ∀ secret,
      (do pure ((← recipient.exchange ephemeral.toPublic) ++
          (← recipient.exchange sender.toPublic))) = Except.ok secret ↔
        (do pure ((← ephemeral.exchange known) ++ (← sender.exchange known))) =
          Except.ok secret := by
    intro secret
    simp only [bind_eq_ok_iff, hephemerals, hstatics]
  refine ⟨oneToOne_of_agreed hephemerals agreement wrap encryption [], ?_⟩
  have honeToOne := oneToOne_of_agreed hboth agreement wrap encryption tag
  simp only [bind_assoc, pure_bind] at honeToOne
  exact honeToOne

/-- Three keys on one curve, and the longest of the content keys. -/
theorem wrapping_oneToOne_of_three_keys :
    let ephemeral := Key.ofScalar ⟨2, by decide, by decide⟩
    let sender := Key.ofScalar ⟨3, by decide, by decide⟩
    let recipient := Key.ofScalar ⟨5, by decide, by decide⟩
    let agreement : Agreement := ⟨"ECDH-1PU+A256KW", [1], [2, 3]⟩
    let key : ContentKey := ⟨.a256CbcHs512, ⟨List.replicate 64 7, rfl⟩⟩
    (∃ wrapped, EcdhEs.wrapKey agreement .a256Kw ephemeral recipient.toPublic key = .ok wrapped ∧
      EcdhEs.unwrapKey agreement .a256Kw .a256CbcHs512 ephemeral.toPublic recipient wrapped =
        .ok key ∧ wrapped.length = 72) ∧
    ∃ wrapped, Ecdh1Pu.wrapKey agreement .a256Kw ephemeral sender recipient.toPublic key [9] =
        .ok wrapped ∧
      Ecdh1Pu.unwrapKey agreement .a256Kw .a256CbcHs512 ephemeral.toPublic sender.toPublic recipient
        wrapped [9] = .ok key ∧ wrapped.length = 72 ∧
      ∀ other, Ecdh1Pu.unwrapKey agreement .a256Kw .a256CbcHs512 ephemeral.toPublic sender.toPublic
        recipient other [9] = .ok key → wrapped = other := by
  intro ephemeral sender recipient agreement key
  have hanonymous : (EcdhEs.wrapKey agreement .a256Kw ephemeral recipient.toPublic key).toOption.any
      (fun _ => true) = true := by
    decide +kernel
  have hknown : (Ecdh1Pu.wrapKey agreement .a256Kw ephemeral sender recipient.toPublic key
      [9]).toOption.any (fun _ => true) = true := by
    decide +kernel
  obtain ⟨first, hfirst, -⟩ := exists_eq_ok_of_any hanonymous
  obtain ⟨second, hsecond, -⟩ := exists_eq_ok_of_any hknown
  have hephemeral : ephemeral.hasSecret = true := rfl
  have hsender : sender.hasSecret = true := rfl
  have hrecipient : recipient.hasSecret = true := rfl
  obtain ⟨hes, hpu⟩ := wrapping_oneToOne hephemeral hsender hrecipient recipient.toPublic_toPublic
    agreement .a256Kw .a256CbcHs512 [9]
  have hunwrapFirst := (hes.unwrap_eq_ok_iff key first).2 ⟨rfl, hfirst⟩
  have hunwrapSecond := (hpu.unwrap_eq_ok_iff key second).2 ⟨rfl, hsecond⟩
  exact ⟨⟨first, hfirst, hunwrapFirst, hes.length_wrapped key first hunwrapFirst⟩,
    second, hsecond, hunwrapSecond, hpu.length_wrapped key second hunwrapSecond,
    fun other => hpu.wrapped_unique key second other hunwrapSecond⟩

end Agreement

end SealedEnvelope
