import MqttClient.Wire.Deserialize

/-! # Packet identifiers

A request carries the identifier under which it is to be acknowledged, and an
acknowledgement the identifier of its request. Here they are read off the bytes
on the network, whatever the client makes of these.
-/

namespace MqttClient

/-- The first two bytes as a number, the most significant byte first. -/
def leadingUint16 : List UInt8 → Option UInt16
  | high :: low :: _ => some (UInt16.ofNat (low.toNat + 256 * high.toNat))
  | _ => none

/-- What follows the length field of a packet. -/
def packetBody (packet : List UInt8) : List UInt8 := (packet.tail.dropWhile (128 ≤ ·)).tail

/-- The identifier of a request. In a PUBLISH packet it stands behind the topic. -/
def packetIdentifier (packet : List UInt8) : Option UInt16 :=
  let header := packet.headD 0
  let body := packetBody packet
  if headerQos header = qos0 then none
  else if headerType header = MessageType.publish.code then
    (leadingUint16 body).bind fun topicNameLen => leadingUint16 (body.drop (2 + topicNameLen.toNat))
  else leadingUint16 body

theorem leadingUint16_isSome {bytes : List UInt8} (h : 2 ≤ bytes.length) :
    (leadingUint16 bytes).isSome = true := by
  match bytes, h with
  | _ :: _ :: _, _ => rfl

@[simp] theorem length_writeUint16 (n : UInt16) : (writeUint16 n).length = 2 := rfl

@[simp] theorem length_memcpy (src : List UInt8) (n : Nat) : (memcpy src n).length = n := by
  simp [memcpy]

theorem leadingUint16_writeUint16 (n : UInt16) (rest : List UInt8) :
    leadingUint16 (writeUint16 n ++ rest) = some n := by
  have hlt := n.toNat_lt
  have hhigh : n.toNat / 256 % 256 = n.toNat / 256 := Nat.mod_eq_of_lt (by omega)
  have hsum : n.toNat % 256 + 256 * (n.toNat / 256) = n.toNat := Nat.mod_add_div _ _
  simp [writeUint16, leadingUint16, hhigh, hsum]

/-- The bytes of a length field are marked, but for the last one. -/
theorem dropWhile_writeLenLoop (digits length : Nat) (rest : List UInt8) (hdigits : 0 < digits)
    (h : length < 128 ^ digits) :
    ((writeLenLoop digits length ++ rest).dropWhile (128 ≤ ·)).tail = rest := by
  induction digits generalizing length with
  | zero => exact absurd hdigits (Nat.lt_irrefl 0)
  | succ digits ih =>
      have hdigit : length % 128 < 128 := Nat.mod_lt _ (by decide)
      have hdiv : length / 128 < 128 ^ digits := by
        rw [Nat.div_lt_iff_lt_mul (by decide)]
        simpa only [Nat.pow_succ] using h
      simp only [writeLenLoop]
      split
      next hmore =>
        have hmarked : 128 ≤ UInt8.ofNat (length % 128 ||| 128) := by
          have hlt : length % 128 ||| 128 < 2 ^ 8 :=
            Nat.or_lt_two_pow (by omega) (by decide)
          rw [UInt8.le_iff_toNat_le, UInt8.toNat_ofNat', Nat.mod_eq_of_lt hlt]
          exact Nat.right_le_or
        have hpos : 0 < digits := by
          rcases Nat.eq_zero_or_pos digits with rfl | hpos
          · rw [Nat.pow_zero] at hdiv
            omega
          · exact hpos
        rw [List.cons_append, List.dropWhile_cons_of_pos (by simpa using hmarked)]
        exact ih _ hpos hdiv
      next =>
        have hlast : ¬ 128 ≤ UInt8.ofNat (length % 128) := by
          rw [UInt8.le_iff_toNat_le, UInt8.toNat_ofNat', Nat.mod_eq_of_lt (by omega)]
          exact Nat.not_le.mpr hdigit
        rw [List.singleton_append, List.dropWhile_cons_of_neg (by simpa using hlast)]
        rfl

theorem packetBody_cons (header : UInt8) (length : Nat) (rest : List UInt8) :
    packetBody (header :: (writeLenToBuffer length ++ rest)) = rest := by
  have hlt : length % 2 ^ 32 < 128 ^ 5 := Nat.lt_trans (Nat.mod_lt _ (by decide)) (by decide)
  exact dropWhile_writeLenLoop 5 _ rest (by decide) hlt

/-! ## The identifiers of the client's own packets -/

theorem initHeader_qos1 {messageType : MessageType} {dup retained header : UInt8}
    (h : initHeader messageType qos1 dup retained = .ok header) :
    headerType header = messageType.code ∧ headerQos header = qos1 := by
  have hbits : ∀ t : MessageType, ∀ d r : UInt8, d = 0 ∨ d = 1 → r = 0 ∨ r = 1 →
      headerType (t.code * 16 + d * 8 + 1 * 2 + r) = t.code ∧
        headerQos (t.code * 16 + d * 8 + 1 * 2 + r) = qos1 := by
    rintro t d r (rfl | rfl) (rfl | rfl) <;> cases t <;> decide
  have hbit : ∀ b : UInt8, (if b = 1 then 1 else 0 : UInt8) = 0 ∨
      (if b = 1 then 1 else 0 : UInt8) = 1 := fun b => by split <;> simp
  have hheader : header = messageType.code * 16 + (if dup = 1 then 1 else 0) * 8 + 1 * 2 +
      if retained = 1 then 1 else 0 := by
    cases messageType <;> cases h <;> rfl
  rw [hheader]
  exact hbits messageType _ _ (hbit dup) (hbit retained)

end MqttClient
