import MqttClient.Session.Records

/-! # What a willing environment can bring about

Where nothing stands in the way but the network and the clock, a packet can be
sent, and an acknowledgement can be received before anything else happens.
-/

namespace MqttClient

open Effect Program

def Event.isSuback : Event → Bool
  | .received .suback => true
  | _ => false

/-- `t` differs from `s` in what has been sent and received; `n` SUBACKs have
come. -/
structure Progressed (n : Nat) (s t : World) : Prop where
  clientState : t.client.clientState = s.client.clientState
  messageHandlers : t.client.messageHandlers = s.client.messageHandlers
  readBufSize : t.client.readBufSize = s.client.readBufSize
  writeBufSize : t.client.writeBufSize = s.client.writeBufSize
  trace : ∃ ev, t.trace = ev ++ s.trace ∧ ev.countP Event.isSuback = n

theorem Progressed.trans {m n : Nat} {s t u : World} (h : Progressed m s t)
    (h' : Progressed n t u) : Progressed (m + n) s u := by
  obtain ⟨ev, htrace, hcount⟩ := h.trace
  obtain ⟨ev', htrace', hcount'⟩ := h'.trace
  refine ⟨h'.clientState.trans h.clientState, h'.messageHandlers.trans h.messageHandlers,
    h'.readBufSize.trans h.readBufSize, h'.writeBufSize.trans h.writeBufSize, ev' ++ ev, ?_, ?_⟩
  · rw [htrace', htrace, List.append_assoc]
  · rw [List.countP_append, hcount, hcount', Nat.add_comm]

abbrev can {α : Type} (p : M α) (Φ : α → World → Prop) (s : World) : Prop :=
  CanReturn anything p Φ s

theorem can_lockMutex (mutex : MutexName) (s : World) :
    can (lockMutex mutex) (fun rc t => rc = .success ∧ t = s) s := by
  simp only [can, lockMutex, getClient, canReturn_bind, canReturn_atomically]
  split
  · rw [canReturn_bind, canReturn_query]
    exact ⟨true, trivial, (canReturn_ret _ _ _).mpr ⟨rfl, rfl⟩⟩
  · exact (canReturn_ret _ _ _).mpr ⟨rfl, rfl⟩

theorem can_unlockMutex (mutex : MutexName) (s : World) :
    can (unlockMutex mutex) (fun rc t => rc = .success ∧ t = s) s := by
  simp only [can, unlockMutex, getClient, canReturn_bind, canReturn_atomically]
  split
  · rw [canReturn_bind, canReturn_query]
    exact ⟨true, trivial, (canReturn_ret _ _ _).mpr ⟨rfl, rfl⟩⟩
  · exact (canReturn_ret _ _ _).mpr ⟨rfl, rfl⟩

theorem can_hasTimerExpired (timer : TimerName) (s : World) :
    can (hasTimerExpired timer) (fun expired t => expired = false ∧ t = s) s := by
  rw [can, hasTimerExpired, canReturn_query]
  exact ⟨false, trivial, rfl, rfl⟩

theorem can_serialized {make : Client → Except IotError (List UInt8)} {next : Nat → M IotError}
    {Φ : IotError → World → Prop} {s : World} (packet : List UInt8)
    (hmake : make s.client = .ok packet)
    (hnext : can (next packet.length) Φ
      (s.onClient fun c => { c with writeBuf := c.writeBuf.store 0 packet })) :
    can (serialized make next) Φ s := by
  simp only [can, serialized, getClient, canReturn_bind, canReturn_atomically, hmake, modifyClient,
    canReturn_modify]
  exact hnext

/-- The network can take a whole packet. -/
theorem can_internalSendPacket (fuel : Nat) {length : Nat} (timer : TimerName) {s : World}
    (hpos : 0 < length) (hlength : length < s.client.writeBufSize) :
    can (internalSendPacket (fuel + 2) length timer)
      (fun rc t => rc = .success ∧ Progressed 0 s t) s := by
  have hstep : can (sendPacketStep length timer 0)
      (fun r t => r = .inl length ∧ Progressed 0 s t) s := by
    simp only [can, sendPacketStep, if_pos hpos, canReturn_bind]
    refine (can_hasTimerExpired timer s).mono ?_
    rintro _ _ ⟨rfl, rfl⟩
    simp only [Bool.false_eq_true, if_false, canReturn_bind, getClient, canReturn_atomically,
      netWrite, canReturn_query, emit, canReturn_modify]
    refine ⟨⟨.success, length, by simp⟩, trivial, ?_⟩
    simp only [pure_eq, canReturn_ret, if_true, Nat.zero_add, true_and]
    exact ⟨rfl, rfl, rfl, rfl, [_], rfl, rfl⟩
  simp only [can, internalSendPacket, canReturn_bind, getClient, canReturn_atomically,
    if_neg (not_le.mpr hlength)]
  refine (can_lockMutex _ s).mono ?_
  rintro _ _ ⟨rfl, rfl⟩
  simp only [onSuccess, if_true, canReturn_bind, Program.loop]
  refine hstep.mono ?_
  rintro _ t ⟨rfl, ht⟩
  simp only [sendPacketStep, lt_irrefl, if_false, pure_eq, canReturn_bind, canReturn_ret]
  refine (can_unlockMutex _ t).mono ?_
  rintro _ _ ⟨rfl, rfl⟩
  simp only [if_true, canReturn_bind, canReturn_modify, canReturn_ret, true_and]
  exact ht.trans (n := 0) ⟨rfl, rfl, rfl, rfl, [_], rfl, rfl⟩

/-! ## Receiving a SUBACK -/

theorem can_netReadToBuffer (site : ReadSite) (off : Nat) (bytes : List UInt8) (s : World) :
    can (netReadToBuffer site off bytes.length)
      (fun rc t => rc = .success ∧ t = s.filled site off (.success bytes rfl)) s := by
  simp only [can, netReadToBuffer, canReturn_bind, canReturn_query, canReturn_modify, pure_eq,
    canReturn_ret]
  exact ⟨.success bytes rfl, trivial, rfl, rfl⟩

/-- The bytes at the start of the receive buffer make a SUBACK with one code. -/
def HoldsSuback (w : World) : Prop := w.client.readBuf 0 = 0x90 ∧ w.client.readBuf 1 = 3

/-- The length field of a SUBACK with one code can arrive. -/
theorem can_decodePacketRemainingLen (fuel : Nat) (s : World) :
    can (decodePacketRemainingLen (fuel + 1))
      (fun r t => r = .ok 3 ∧ t = s.log (.netRead .length 1 .success [3])) s := by
  simp only [can, decodePacketRemainingLen, Program.loop, decodePacketRemainingLenStep, netReadByte,
    maxNoOfRemainingLengthBytes, canReturn_bind]
  rw [if_neg (by decide), canReturn_bind, canReturn_bind, canReturn_query]
  refine ⟨.success [3] rfl, trivial, ?_⟩
  simp [emit, ReadResult.rc, ReadResult.bytes, canReturn_bind, canReturn_modify, canReturn_ret]

/-- The rest of the SUBACK can arrive behind its header. -/
theorem can_readPacketBody {s : World} (hheader : s.client.readBuf 0 = 0x90) :
    can (readPacketBody 3)
      (fun r t => r = .ok MessageType.suback.code ∧ HoldsSuback t ∧ Progressed 1 s t) s := by
  simp only [can, readPacketBody, canReturn_bind, canReturn_modify,
    writeLenToBuffer_of_lt (show 3 < 128 by decide), readRemaining]
  rw [if_pos (by decide)]
  refine (can_netReadToBuffer .body 2 [0, 0, 0] _).mono ?_
  rintro _ _ ⟨rfl, rfl⟩
  simp only [if_true, getClient, emit, canReturn_bind, canReturn_atomically, canReturn_modify,
    pure_eq, canReturn_ret]
  have hbuf : (((s.withLength [UInt8.ofNat 3]).filled .body 2
      (.success (n := 3) [0, 0, 0] rfl)).client.readBuf 0) = 0x90 := hheader
  rw [hbuf]
  exact ⟨rfl, ⟨hbuf, rfl⟩, rfl, rfl, rfl, rfl, [_, _, _, _], rfl, rfl⟩

/-- A SUBACK can arrive. -/
theorem can_internalReadPacket (fuel : Nat) {s : World} (hsize : 5 ≤ s.client.readBufSize) :
    can (internalReadPacket (fuel + 1))
      (fun r t => r = .ok MessageType.suback.code ∧ HoldsSuback t ∧ Progressed 1 s t) s := by
  simp only [can, internalReadPacket, getClient, countdown, emit, canReturn_bind,
    canReturn_atomically, canReturn_modify]
  refine (can_netReadToBuffer .header 0 [0x90] _).mono ?_
  rintro _ _ ⟨rfl, rfl⟩
  rw [if_neg (by decide), if_neg (by decide), canReturn_bind]
  refine (can_decodePacketRemainingLen fuel _).mono ?_
  rintro _ t ⟨rfl, ht⟩
  have hlt : ¬ 3 ≥ t.client.readBufSize := by
    rw [ht]
    exact not_le.mpr (by simpa [World.filled] using Nat.lt_of_lt_of_le (by decide) hsize)
  simp only [readPacketOfLength, getClient, canReturn_bind, canReturn_atomically, id_eq]
  rw [if_neg hlt]
  refine (can_readPacketBody (by rw [ht]; rfl)).mono fun r u hu => ⟨hu.1, hu.2.1, ?_⟩
  refine Progressed.trans (m := 0) ?_ hu.2.2
  rw [ht]
  exact ⟨rfl, rfl, rfl, rfl, [_, _, _, _], rfl, rfl⟩

variable {call : Call → M IotError}

/-- A wait for a SUBACK can succeed. -/
theorem can_internalWaitForRead (fuel : Nat) {s : World} (hsize : 5 ≤ s.client.readBufSize) :
    can (internalWaitForRead (fuel + 1) call .suback)
      (fun rc t => rc = .success ∧ HoldsSuback t ∧ Progressed 1 s t) s := by
  simp only [can, internalWaitForRead, framed, emit, canReturn_bind, canReturn_modify,
    Program.loop, waitForReadStep]
  refine (can_hasTimerExpired .command _).mono ?_
  rintro _ _ ⟨rfl, rfl⟩
  simp only [Bool.false_eq_true, if_false, internalCycleRead, canReturn_bind]
  refine (can_lockMutex _ _).mono ?_
  rintro _ _ ⟨rfl, rfl⟩
  rw [if_neg (by decide), canReturn_bind]
  refine (can_internalReadPacket fuel (s := s.log (.enter (.waiting .suback))) hsize).mono ?_
  rintro _ t ⟨rfl, hholds, hprogressed⟩
  simp only [canReturn_bind]
  refine (can_unlockMutex _ _).mono ?_
  rintro _ _ ⟨rfl, rfl⟩
  rw [if_neg (by decide), canReturn_bind, dispatchPacket_ack _ _
    (rfl : MessageType.suback.isAck = true)]
  simp only [pure_eq, canReturn_ret, Option.getD_some]
  rw [if_neg (by decide), canReturn_ret, canReturn_ret]
  simp only
  rw [if_neg (by decide), canReturn_ret]
  refine ⟨rfl, hholds, ?_⟩
  refine Progressed.trans (m := 0) (n := 1) (t := s.log (.enter (.waiting .suback)))
    ⟨rfl, rfl, rfl, rfl, [_], rfl, rfl⟩ ?_
  exact hprogressed.trans (n := 0) ⟨rfl, rfl, rfl, rfl, [_], rfl, rfl⟩

theorem HoldsSuback.deserializeSuback {w : World} (h : HoldsSuback w)
    (hsize : 5 ≤ w.client.readBufSize) :
    ∃ r, deserializeSuback w.client.readBuf w.client.readBufSize 1 = .ok r := by
  have hlength : decodeRemainingLengthFromBuffer w.client.readBuf 1 = .ok (3, 1) := by
    rw [decodeRemainingLengthFromBuffer, maxNoOfRemainingLengthBytes, decodeLenLoop, h.2]
    rfl
  rw [MqttClient.deserializeSuback, if_neg (not_lt.mpr hsize), h.1, if_neg (by decide), hlength]
  exact ⟨_, rfl⟩

end MqttClient
