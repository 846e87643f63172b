import MqttClient.Network.Flowing
import MqttClient.Wire.LengthFields

/-! # Packets on a channel of bytes

On top of the TLS wrapper a packet is handed over whole, or the client reports an error; and a
packet that the client has read is the next one of what comes in, whatever the results of the
reads have been.
-/

namespace MqttClient.Network

open Effect Program

/-! ## The client's questions on a channel of bytes -/

section Questions

variable {c : Connection} {w : World}

theorem wpIn_query_other {q : MqttClient.Query}
    {Φ : MqttClient.Answer q → Connection → World → Prop} (hq : concernsBytes q = false)
    (h : ∀ a, Φ a c w) : wpIn ByteChannel (query q) Φ c w := by
  intro a c' hanswer
  cases hanswer with
  | other => exact h a
  | read | write | connect => cases hq

theorem wpIn_netWrite {bytes : List UInt8} {Φ : IotError × Nat → Connection → World → Prop}
    (h : ∀ (rc : IotError) (n : Nat), n ≤ bytes.length → (rc = .success ↔ n = bytes.length) →
      Φ (rc, n) { c with outgoing := c.outgoing ++ bytes.take n } (w.log (.netWrite bytes rc n))) :
    wpIn ByteChannel (netWrite bytes) Φ c w := by
  intro result c' hanswer
  cases hanswer with
  | write result hrc => exact h result.rc result.written result.written_le hrc
  | other a hq => cases hq

end Questions

/-! ## Sending a packet -/

section Sending

variable {c c' : Connection} {w w' : World} {length : Nat} {timer : TimerName}

/-- The first `n` bytes of what the transmit buffer holds have gone out, and nothing has come in. -/
structure HasGone (c : Connection) (w : World) (n : Nat) (c' : Connection) (w' : World) : Prop where
  incoming : c'.incoming = c.incoming
  received : c'.received = c.received
  delivered : c'.delivered = c.delivered
  outgoing : c'.outgoing = c.outgoing ++ w.client.writeBuf.load 0 n
  client : w'.client = w.client

theorem hasGone_zero (c : Connection) (w : World) : HasGone c w 0 c w where
  incoming := rfl
  received := rfl
  delivered := rfl
  outgoing := (List.append_nil _).symm
  client := rfl

/-- The loop goes on only when nothing or all has been sent. -/
structure SendingFrom (length : Nat) (c : Connection) (w : World) (sent : Nat) (c' : Connection)
    (w' : World) : Prop where
  gone : HasGone c w sent c' w'
  whole : sent = 0 ∨ sent = length

/-- How the loop ends: `sent` may say that nothing has gone out where a part of it has. -/
def SendingEnds (length : Nat) (c : Connection) (w : World) (sent : Nat) (c' : Connection)
    (w' : World) : Prop :=
  ∃ n ≤ length, HasGone c w n c' w' ∧ (sent = length ↔ n = length)

theorem SendingFrom.ends {sent : Nat} (h : SendingFrom length c w sent c' w') :
    SendingEnds length c w sent c' w' := by
  refine ⟨sent, ?_, h.gone, Iff.rfl⟩
  rcases h.whole with rfl | rfl
  · exact Nat.zero_le length
  · exact Nat.le_refl sent

/-- Step lemma of the loop. -/
theorem wpIn_sendPacketStep {sent : Nat} (h : SendingFrom length c w sent c' w') :
    wpIn ByteChannel (sendPacketStep length timer sent)
      (fun r d v => Sum.elim (SendingFrom length c w · d v) (SendingEnds length c w · d v) r)
      c' w' := by
  unfold sendPacketStep
  split
  next hlt =>
    obtain rfl : sent = 0 := h.whole.resolve_right hlt.ne
    rw [wpIn_bind]
    apply wpIn_query_other rfl
    intro expired
    cases expired with
    | true => exact h.ends
    | false =>
        simp only [Bool.false_eq_true, if_false, wpIn_bind, getClient, wpIn_atomically, id_eq]
        apply wpIn_netWrite
        rw [h.gone.client]
        intro rc n hn hrc
        rw [Memory.length_load] at hn hrc
        have hgone : HasGone c w n
            { c' with outgoing := c'.outgoing ++ (w.client.writeBuf.load 0 length).take n }
            (w'.log (.netWrite (w.client.writeBuf.load 0 length) rc n)) := by
          refine ⟨h.gone.incoming, h.gone.received, h.gone.delivered, ?_, h.gone.client⟩
          rw [h.gone.outgoing, ← load_le _ _ hn, Memory.load_zero, List.append_nil]
        split
        next hsuccess =>
          rw [hrc.mp hsuccess] at hgone ⊢
          rw [Nat.zero_add]
          exact ⟨hgone, .inr rfl⟩
        next hfailure =>
          exact ⟨n, hn, hgone, iff_of_false hlt.ne fun hall => hfailure (hrc.mpr hall)⟩
  next => exact h.ends

/-- What sending a packet leaves. -/
def PacketSent (length : Nat) (c : Connection) (w : World) (rc : IotError) (c' : Connection)
    (w' : World) : Prop :=
  ∃ n ≤ length, HasGone c w n c' w' ∧ (rc = .success → n = length) ∧ (rc = .failure → n < length)

theorem wpIn_lockMutex {mutex : MutexName} {Φ : IotError → Connection → World → Prop}
    (h : ∀ rc, rc ≠ .failure → Φ rc c w) : wpIn ByteChannel (lockMutex mutex) Φ c w := by
  simp only [lockMutex, wpIn_bind, getClient, wpIn_atomically, id_eq]
  split
  · rw [wpIn_bind]
    apply wpIn_query_other rfl
    intro ok
    cases ok with
    | true => exact h _ nofun
    | false => exact h _ nofun
  · exact h _ nofun

theorem wpIn_unlockMutex {mutex : MutexName} {Φ : IotError → Connection → World → Prop}
    (h : ∀ rc, rc ≠ .failure → Φ rc c w) : wpIn ByteChannel (unlockMutex mutex) Φ c w := by
  simp only [unlockMutex, wpIn_bind, getClient, wpIn_atomically, id_eq]
  split
  · rw [wpIn_bind]
    apply wpIn_query_other rfl
    intro ok
    cases ok with
    | true => exact h _ nofun
    | false => exact h _ nofun
  · exact h _ nofun

/-- Run lemma: sending succeeds only with the whole packet, and fails only with a part of it. -/
theorem wpIn_internalSendPacket (fuel length : Nat) (timer : TimerName) (c : Connection)
    (w : World) :
    wpIn ByteChannel (internalSendPacket fuel length timer) (PacketSent length c w) c w := by
  -- up to the first write nothing has gone out
  have hnone {rc : IotError} (hsuccess : rc ≠ .success) (hfailure : rc ≠ .failure) :
      PacketSent length c w rc c w :=
    ⟨0, Nat.zero_le length, hasGone_zero c w, fun h => absurd h hsuccess,
      fun h => absurd h hfailure⟩
  simp only [internalSendPacket, wpIn_bind, getClient, wpIn_atomically, id_eq]
  split
  · exact hnone nofun nofun
  · rw [wpIn_bind]
    apply wpIn_lockMutex
    intro rc hrc
    unfold onSuccess
    split
    · rw [wpIn_bind]
      apply wpIn_mono (Φ := SendingEnds length c w)
      · rintro sent c' w' ⟨n, hn, hgone, hall⟩
        rw [wpIn_bind]
        apply wpIn_unlockMutex
        intro rc hrc
        split
        · split
          next hsent =>
            refine ⟨n, hn, ?_, fun _ => hall.mp hsent, nofun⟩
            exact ⟨hgone.incoming, hgone.received, hgone.delivered, hgone.outgoing, hgone.client⟩
          next hsent =>
            refine ⟨n, hn, hgone, nofun, fun _ => ?_⟩
            exact lt_of_le_of_ne hn fun h => hsent (hall.mpr h)
        next hunlock =>
          exact ⟨n, hn, hgone, fun h => absurd h hunlock, fun h => absurd h hrc⟩
      · apply wpIn_loop (I := SendingFrom length c w)
        · exact fun sent c' w' h => wpIn_sendPacketStep h
        · exact ⟨hasGone_zero c w, .inl rfl⟩
    next hlock => exact hnone hlock hrc

end Sending

/-! ## Reading a packet -/

section Reading

variable {c c' : Connection} {w w' : World}

/-- Of what has come in the next bytes are a packet, and the receive buffer holds it with the
shortest length field. -/
structure PacketComesIn (c : Connection) (packetType : UInt8) (c' : Connection) (w' : World)
    (field body : List UInt8) : Prop where
  isField : isLengthField field = true
  field_eq : field = c.incoming.load (c.received + 1) field.length
  body_eq : body = c.incoming.load (c.received + 1 + field.length) body.length
  length_eq : body.length = lengthValue field % 2 ^ 64
  packetType_eq : packetType = headerType (c.incoming c.received)
  received : c'.received = c.received + (1 + (field.length + body.length))
  stored : w'.client.readBuf.load 0 (1 + ((writeLenToBuffer body.length).length + body.length)) =
    c.incoming c.received :: (writeLenToBuffer body.length ++ body)

structure PacketRead (c : Connection) (r : Except IotError UInt8) (c' : Connection) (w' : World) :
    Prop where
  incoming : c'.incoming = c.incoming
  outgoing : c'.outgoing = c.outgoing
  nothing : r = .error .mqttNothingToRead → c'.received = c.received
  packet : ∀ packetType, r = .ok packetType →
    ∃ field body, PacketComesIn c packetType c' w' field body

/-- While the length field is read: all its bytes so far have announced another one. -/
structure LengthRead (c : Connection) (w : World) (p : LengthProgress) (k : Nat) (c' : Connection)
    (w' : World) : Prop where
  incoming : c'.incoming = c.incoming
  outgoing : c'.outgoing = c.outgoing
  received : c'.received = c.received + k
  more : ∀ i < k, 128 ≤ (c.incoming (c.received + i)).toNat
  multiplier : p.multiplier = 128 ^ k % 2 ^ 64
  remLen : p.remLen = lengthValue (c.incoming.load c.received k) % 2 ^ 64
  client : w'.client = w.client

/-- How the loop over the length field ends. -/
structure LengthEnds (c : Connection) (w : World) (r : Except IotError Nat) (c' : Connection)
    (w' : World) : Prop where
  incoming : c'.incoming = c.incoming
  outgoing : c'.outgoing = c.outgoing
  ne_nothing : r ≠ .error .mqttNothingToRead
  field : ∀ remLen, r = .ok remLen → ∃ field, isLengthField field = true ∧
    field = c.incoming.load c.received field.length ∧ remLen = lengthValue field % 2 ^ 64 ∧
    c'.received = c.received + field.length ∧ w'.client = w.client

theorem wpIn_netReadByte {site : ReadSite} {Φ : Except IotError UInt8 → Connection → World → Prop}
    (hok : ∀ v, v.client = w.client →
      Φ (.ok (c.incoming c.received))
        { c with
          received := c.received + 1
          delivered := c.delivered ++ [c.incoming c.received] } v)
    (herror : ∀ rc c' v, rc ∈ readCodes → c'.incoming = c.incoming → c'.outgoing = c.outgoing →
      Φ (.error rc) c' v) :
    wpIn ByteChannel (netReadByte site) Φ c w := by
  intro result c' hanswer
  cases hanswer with
  | other a hq => cases hq
  | read result hbytes hrc =>
      change Φ (if result.rc = .success then .ok (result.bytes.headD 0) else .error result.rc) _ _
      split
      next hsuccess =>
        have hlength := ReadResult.length_bytes_of_success hsuccess
        rw [hlength] at hbytes ⊢
        rw [hbytes]
        exact hok _ rfl
      next => exact herror _ _ _ hrc rfl rfl

theorem wpIn_netReadToBuffer {site : ReadSite} {off n : Nat}
    {Φ : IotError → Connection → World → Prop}
    (h : ∀ result : ReadResult n,
      result.bytes = c.incoming.load c.received result.bytes.length → result.rc ∈ readCodes →
        Φ result.rc
          { c with
            received := c.received + result.bytes.length
            delivered := c.delivered ++ result.bytes }
          (w.filled site off result)) :
    wpIn ByteChannel (netReadToBuffer site off n) Φ c w := by
  intro result c' hanswer
  cases hanswer with
  | other a hq => cases hq
  | read result hbytes hrc => exact h result hbytes hrc

theorem lengthRead_zero (c : Connection) (w : World) : LengthRead c w ⟨0, 1, 0⟩ 0 c w where
  incoming := rfl
  outgoing := rfl
  received := rfl
  more i hi := absurd hi (Nat.not_lt_zero i)
  multiplier := rfl
  remLen := rfl
  client := rfl

/-- The value of the bytes read so far, with the next one. -/
theorem LengthRead.next {p : LengthProgress} {k : Nat} (h : LengthRead c w p k c' w') :
    (p.remLen + (c.incoming (c.received + k)).toNat % 128 * p.multiplier) % 2 ^ 64 =
      lengthValue (c.incoming.load c.received (k + 1)) % 2 ^ 64 := by
  have hload : c.incoming.load c.received (k + 1) =
      c.incoming.load c.received k ++ [c.incoming (c.received + k)] := Memory.load_add _ _ k 1
  rw [hload, lengthValue_concat, Memory.length_load, h.remLen, h.multiplier, Nat.mod_add_mod,
    Nat.add_mod, Nat.mul_mod_mod, ← Nat.add_mod]

/-- Step lemma: a byte that announces another one, or the last one. -/
theorem wpIn_decodeStep {p : LengthProgress} {k : Nat} (h : LengthRead c w p k c' w') :
    wpIn ByteChannel (decodePacketRemainingLenStep p)
      (fun r d v => Sum.elim (fun q => ∃ k, LengthRead c w q k d v)
        (fun r => LengthEnds c w r d v) r) c' w' := by
  unfold decodePacketRemainingLenStep
  split
  · exact ⟨h.incoming, h.outgoing, nofun, nofun⟩
  · rw [wpIn_bind]
    apply wpIn_netReadByte
    · intro v hclient
      have hbyte : c'.incoming c'.received = c.incoming (c.received + k) := by
        rw [h.incoming, h.received]
      simp only [hbyte, h.next]
      split
      next hlast =>
        refine ⟨h.incoming, h.outgoing, nofun, ?_⟩
        rintro remLen ⟨⟩
        refine ⟨c.incoming.load c.received (k + 1), isLengthField_load h.more hlast, ?_, rfl, ?_,
          hclient.trans h.client⟩
        · rw [Memory.length_load]
        · rw [Memory.length_load, ← Nat.add_assoc, ← h.received]
      next hmore =>
        refine ⟨k + 1, h.incoming, h.outgoing, ?_, ?_, ?_, rfl, hclient.trans h.client⟩
        · rw [← Nat.add_assoc, ← h.received]
        · intro i hi
          rcases Nat.lt_succ_iff_lt_or_eq.mp hi with hi | rfl
          · exact h.more i hi
          · exact Nat.not_lt.mp hmore
        · -- the multiplier wraps at the width of its type
          have hpow : 128 ^ (k + 1) = 128 ^ k * 128 := pow_succ 128 k
          rw [hpow, h.multiplier, Nat.mod_mul_mod]
    · intro rc d v hrc hincoming houtgoing
      refine ⟨hincoming.trans h.incoming, houtgoing.trans h.outgoing, ?_, nofun⟩
      rintro ⟨⟩
      exact absurd hrc (by decide)

theorem wpIn_decodePacketRemainingLen (fuel : Nat) (c : Connection) (w : World) :
    wpIn ByteChannel (decodePacketRemainingLen fuel) (LengthEnds c w) c w := by
  apply wpIn_loop (I := fun p c' w' => ∃ k, LengthRead c w p k c' w')
  · rintro p c' w' ⟨k, h⟩
    exact wpIn_decodeStep h
  · exact ⟨0, lengthRead_zero c w⟩

/-- Draining only takes bytes in. -/
theorem wpIn_drainLoop (remLen readBufSize fuel : Nat) (p : DrainProgress) :
    wpIn ByteChannel (Program.loop (drainStep remLen readBufSize) fuel p)
      (fun _ d _ => d.incoming = c.incoming ∧ d.outgoing = c.outgoing) c w := by
  apply wpIn_loop (I := fun _ d _ => d.incoming = c.incoming ∧ d.outgoing = c.outgoing)
  · intro p d v h
    rw [drainStep, wpIn_bind]
    apply wpIn_netReadToBuffer
    intro result hbytes _
    split
    · dsimp only
      split
      · exact h
      · exact h
    · exact h
  · exact ⟨rfl, rfl⟩

/-- The body comes in, or the client reports a failure. -/
theorem wpIn_readRemaining (off remLen : Nat) :
    wpIn ByteChannel (readRemaining off remLen)
      (fun rc d v => d.incoming = c.incoming ∧ d.outgoing = c.outgoing ∧
        (rc = .success → d.received = c.received + remLen ∧ v.client.readBuf =
          w.client.readBuf.store off (c.incoming.load c.received remLen))) c w := by
  unfold readRemaining
  split
  next hpos =>
    apply wpIn_netReadToBuffer
    intro result hbytes _
    refine ⟨rfl, rfl, fun hsuccess => ?_⟩
    have hlength := ReadResult.length_bytes_of_success hsuccess
    rw [hlength] at hbytes
    refine ⟨congrArg (c.received + ·) hlength, ?_⟩
    rw [← hbytes]
    rfl
  next hzero =>
    obtain rfl : remLen = 0 := Nat.eq_zero_of_not_pos hzero
    exact ⟨rfl, rfl, fun _ => ⟨rfl, (Memory.store_nil _ _).symm⟩⟩

/-- What has come in of a packet whose header and length field have been read. -/
theorem wpIn_readPacketBody {header : UInt8} (remLen : Nat)
    (hheader : w.client.readBuf 0 = header) :
    wpIn ByteChannel (readPacketBody remLen)
      (fun r d v => d.incoming = c.incoming ∧ d.outgoing = c.outgoing ∧
        r ≠ .error .mqttNothingToRead ∧ ∀ packetType, r = .ok packetType →
          packetType = headerType header ∧ d.received = c.received + remLen ∧
            v.client.readBuf.load 0 (1 + ((writeLenToBuffer remLen).length + remLen)) =
              header :: (writeLenToBuffer remLen ++ c.incoming.load c.received remLen)) c w := by
  rw [readPacketBody, wpIn_bind, wpIn_modify, wpIn_bind]
  apply wpIn_mono _ (wpIn_readRemaining (1 + (writeLenToBuffer remLen).length) remLen)
  rintro rc d v ⟨hincoming, houtgoing, hbody⟩
  split
  next hsuccess =>
    obtain ⟨hreceived, hbuf⟩ := hbody hsuccess
    simp only [wpIn_bind, getClient, wpIn_atomically, id_eq, emit, wpIn_modify, pure_eq, wpIn_ret]
    -- the field and the body have been stored behind the header
    have hstored : v.client.readBuf = w.client.readBuf.store 1
        (writeLenToBuffer remLen ++ c.incoming.load c.received remLen) := by
      rw [hbuf, Memory.store_append]
      rfl
    have hfirst : v.client.readBuf 0 = header := by
      rw [hstored, Memory.store_apply_of_lt _ _ Nat.zero_lt_one, hheader]
    refine ⟨hincoming, houtgoing, (fun h => by cases h), ?_⟩
    rintro packetType ⟨⟩
    refine ⟨by rw [hfirst], hreceived, ?_⟩
    change v.client.readBuf.load 0 _ = _
    rw [Nat.add_comm 1, Memory.load_succ, hfirst, hstored]
    have hload := Memory.load_store w.client.readBuf 1
      (writeLenToBuffer remLen ++ c.incoming.load c.received remLen)
    rw [List.length_append, Memory.length_load] at hload
    exact congrArg (header :: ·) hload
  next => exact ⟨hincoming, houtgoing, (fun h => by cases h), fun _ h => by cases h⟩

theorem wpIn_readPacketOfLength {header : UInt8} (fuel remLen : Nat)
    (hheader : w.client.readBuf 0 = header) :
    wpIn ByteChannel (readPacketOfLength fuel remLen)
      (fun r d v => d.incoming = c.incoming ∧ d.outgoing = c.outgoing ∧
        r ≠ .error .mqttNothingToRead ∧ ∀ packetType, r = .ok packetType →
          packetType = headerType header ∧ d.received = c.received + remLen ∧
            v.client.readBuf.load 0 (1 + ((writeLenToBuffer remLen).length + remLen)) =
              header :: (writeLenToBuffer remLen ++ c.incoming.load c.received remLen)) c w := by
  simp only [readPacketOfLength, wpIn_bind, getClient, wpIn_atomically, id_eq]
  split
  · rw [wpIn_bind]
    apply wpIn_mono _ (wpIn_drainLoop remLen w.client.readBufSize fuel _)
    exact fun _ _ _ h => ⟨h.1, h.2, nofun, nofun⟩
  · exact wpIn_readPacketBody remLen hheader

/-- Run lemma: what has been read is the next packet. -/
theorem wpIn_internalReadPacket (fuel : Nat) (c : Connection) (w : World) :
    wpIn ByteChannel (internalReadPacket fuel) (PacketRead c) c w := by
  simp only [internalReadPacket, countdown, emit, wpIn_bind, getClient, wpIn_atomically, id_eq,
    wpIn_modify]
  apply wpIn_netReadToBuffer
  intro result hbytes hcode
  split
  next hrc =>
    -- where there was nothing to read, nothing has been stored
    have hnone : result.bytes = [] := by
      cases result with
      | success => cases hrc
      | failure rc stored _ _ hnothing => exact hnothing hrc
    refine ⟨rfl, rfl, fun _ => ?_, fun _ h => by cases h⟩
    rw [hnone]
    rfl
  next hrc =>
    split
    next hfailure =>
      refine ⟨rfl, rfl, fun hnothing => ?_, fun _ h => by cases h⟩
      rw [Except.error.inj hnothing] at hcode
      exact absurd hcode (by decide)
    next hsuccess =>
      have hlength := ReadResult.length_bytes_of_success (not_not.mp hsuccess)
      rw [hlength] at hbytes ⊢
      rw [wpIn_bind]
      apply wpIn_mono _ (wpIn_decodePacketRemainingLen fuel _ _)
      intro r d v h
      cases r with
      | error rc =>
          refine ⟨h.incoming, h.outgoing, fun hnothing => ?_, fun _ h => by cases h⟩
          exact absurd (congrArg Except.error (Except.error.inj hnothing)) h.ne_nothing
      | ok remLen =>
          obtain ⟨field, hisField, hfield, hremLen, hreceived, hclient⟩ := h.field remLen rfl
          -- the header stays in front of what is stored next
          have hheader : v.client.readBuf 0 = c.incoming c.received := by
            rw [hclient]
            change Memory.store _ 0 result.bytes 0 = _
            rw [hbytes]
            rfl
          apply wpIn_mono _ (wpIn_readPacketOfLength fuel remLen hheader)
          rintro r d' v' ⟨hincoming, houtgoing, hne, hpacket⟩
          refine ⟨hincoming.trans h.incoming, houtgoing.trans h.outgoing,
            fun hnothing => absurd hnothing hne, fun packetType hok => ?_⟩
          obtain ⟨htype, hrest, hstored⟩ := hpacket packetType hok
          refine ⟨field, c.incoming.load (c.received + 1 + field.length) remLen, ?_⟩
          have hbody : d.incoming.load d.received remLen =
              c.incoming.load (c.received + 1 + field.length) remLen := by
            rw [h.incoming, hreceived]
          rw [hbody] at hstored
          refine ⟨hisField, hfield, ?_, ?_, htype, ?_, ?_⟩
          · rw [Memory.length_load]
          · rw [Memory.length_load, hremLen]
          · rw [hrest, hreceived, Memory.length_load]
            change c.received + 1 + field.length + remLen = _
            omega
          · rw [Memory.length_load]
            exact hstored

end Reading

/-! ## On top of the wrapper -/

section OverTls

variable {fuel length : Nat} {timer : TimerName} {c c' : Connection} {w w' : World}

/-- A packet that has been sent is one that the library has accepted whole, and a packet that
could not be sent is one of which it has accepted a part at most, also where the client takes up
the write again. -/
theorem packetSent_overTls {rc : IotError}
    (h : ReturnsIn OverTls (internalSendPacket fuel length timer) c w rc c' w') :
    PacketSent length c w rc c' w' :=
  wpIn_returns (wpIn_internalSendPacket fuel length timer c w) (h.refine overTls_refines)

/-- Two bytes are sent. -/
theorem packetSent_overTls_two : ∃ c t,
    PacketSent 2 (.feeding connectedWorld []) connectedWorld .success c t := by
  have hsent : ∃ c t, ReturnsIn FlowingTls (internalSendPacket 2 2 .packet)
      (.feeding connectedWorld []) connectedWorld .success c t :=
    exists_returnsIn_flowing (r := ⟨0, 0⟩) ⟨rfl, rfl⟩ (by decide +kernel) (by decide +kernel)
  obtain ⟨c, t, h⟩ := hsent
  exact ⟨c, t, packetSent_overTls (h.refine flowingTls_refines)⟩

/-- A packet that has been read is the next one of what the library delivers, and where there is
nothing to read it has delivered nothing. -/
theorem packetRead_overTls {r : Except IotError UInt8}
    (h : ReturnsIn OverTls (internalReadPacket fuel) c w r c' w') : PacketRead c r c' w' :=
  wpIn_returns (wpIn_internalReadPacket fuel c w) (h.refine overTls_refines)

/-- A message is read. -/
theorem packetRead_overTls_message : ∃ c t,
    PacketRead (.feeding connectedWorld sampleBytes) (.ok MessageType.publish.code) c t := by
  have hread : ∃ c t, ReturnsIn FlowingTls (internalReadPacket 5)
      (.feeding connectedWorld sampleBytes) connectedWorld (.ok MessageType.publish.code) c t :=
    exists_returnsIn_flowing (r := ⟨0, 0⟩) ⟨rfl, rfl⟩ (by decide +kernel) (by decide +kernel)
  obtain ⟨c, t, h⟩ := hread
  exact ⟨c, t, packetRead_overTls (h.refine flowingTls_refines)⟩

end OverTls

end MqttClient.Network
