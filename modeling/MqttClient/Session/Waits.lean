import MqttClient.Session.Nesting
import MqttClient.Session.Records
import MqttClient.Session.Streams

/-! # Waiting for a packet

The loop remembers the type of the last packet it has read, also over reads
that fail or find nothing, while handlers read packets of their own into the
same buffer. A type that ends the loop was read in its last turn, in which no
handler runs: what the buffer holds then is the packet of that type.
-/

namespace MqttClient

open Effect Program

/-- A packet as it comes from the network, of whose length field the decoder has made the number
of bytes that follow it. -/
structure FetchedPacket where
  header : UInt8
  field : List UInt8
  body : List UInt8
  isField : isLengthField field = true
  length_eq : lengthValue field % 2 ^ 64 = body.length

namespace FetchedPacket

variable (p : FetchedPacket)

/-- The packet as it is put in the receive buffer, with the shortest length field. -/
def canonical : List UInt8 := p.header :: (writeLenToBuffer p.body.length ++ p.body)

/-- The packet is at the start of the buffer. -/
def IsHeldBy (c : Client) : Prop := c.readBuf.load 0 p.canonical.length = p.canonical

end FetchedPacket

/-- What is on record of the bytes of a length field. -/
def lengthReads (field : List UInt8) : Trace :=
  field.reverse.map fun b => .netRead .length 1 .success [b]

/-- What is on record of a body that is stored at `off`. -/
def bodyReads (off : Nat) : List UInt8 → Trace
  | [] => []
  | b :: body =>
      [.stored off (b :: body).length, .netRead .body (b :: body).length .success (b :: body)]

/-- What is on record of a packet that has been read, from its header on. -/
def FetchedPacket.reads (p : FetchedPacket) : Trace :=
  let field := writeLenToBuffer p.body.length
  .received (MessageType.ofNibble (headerType p.header)) ::
    (bodyReads (1 + field.length) p.body ++ .stored 1 field.length ::
      (lengthReads p.field ++ [.stored 0 1, .netRead .header 1 .success [p.header]]))

/-- The last thing that has happened since `s` is that the packet was read, by the call that is
in progress. -/
structure Fetched (p : FetchedPacket) (s t : World) : Prop where
  held : p.IsHeldBy t.client
  last : ∃ u, Extends s u ∧ t.trace = p.reads ++ u.trace

namespace Waits

variable {allow : Policy} {s t : World}

/-! ## Reading a packet -/

/-- The bytes of the length field so far, all of which announce another one. -/
structure Decoding (s : World) (p : LengthProgress) (t : World) : Prop where
  client : t.client = s.client
  read : ∃ field, t.trace = lengthReads field ++ s.trace ∧ (∀ b ∈ field, 128 ≤ b.toNat) ∧
    p.remLen = lengthValue field % 2 ^ 64 ∧ p.multiplier = 128 ^ field.length % 2 ^ 64

/-- The whole length field. -/
def Decoded (s : World) (remLen : Nat) (t : World) : Prop :=
  t.client = s.client ∧ ∃ field, t.trace = lengthReads field ++ s.trace ∧
    isLengthField field = true ∧ lengthValue field % 2 ^ 64 = remLen

theorem lengthReads_concat (field : List UInt8) (b : UInt8) :
    lengthReads (field ++ [b]) = .netRead .length 1 .success [b] :: lengthReads field := by
  simp [lengthReads]

theorem isLengthField_concat {field : List UInt8} {b : UInt8} (hfield : ∀ a ∈ field, 128 ≤ a.toNat)
    (hb : b.toNat < 128) : isLengthField (field ++ [b]) = true := by
  induction field with
  | nil => exact decide_eq_true hb
  | cons a field ih =>
      have hrest := ih fun c hc => hfield c (List.mem_cons_of_mem a hc)
      have ha := hfield a List.mem_cons_self
      rw [List.cons_append, isLengthField, hrest, Bool.and_true]
      · exact decide_eq_true ha
      · simp

/-- One more byte of the length field. -/
theorem value_concat {field : List UInt8} {b : UInt8} {p : LengthProgress}
    (hrem : p.remLen = lengthValue field % 2 ^ 64)
    (hmultiplier : p.multiplier = 128 ^ field.length % 2 ^ 64) :
    (p.remLen + b.toNat % 128 * p.multiplier) % 2 ^ 64 = lengthValue (field ++ [b]) % 2 ^ 64 := by
  rw [lengthValue_concat, hrem, hmultiplier, Nat.mod_add_mod, Nat.add_mod, Nat.mul_mod_mod,
    ← Nat.add_mod]

/-- Step lemma of the decoder. -/
theorem wp_decodeStep {p : LengthProgress} (h : Decoding s p t) :
    wp (observed allow fun _ _ => True) (decodePacketRemainingLenStep p)
      (fun r u => Sum.elim (Decoding s · u) (fun r => ∀ remLen, r = .ok remLen → Decoded s remLen u)
        r) t := by
  obtain ⟨hclient, field, htrace, hfield, hrem, hmultiplier⟩ := h
  unfold decodePacketRemainingLenStep
  split
  next => rintro _ ⟨⟩
  next =>
    simp only [netReadByte, wp_bind, wp_query, solo_pre, solo_allow, wp_emit, true_and, pure_eq,
      wp_ret]
    intro r _
    cases r with
    | failure rc stored hrc hlength hnothing =>
        have hfailed : (ReadResult.failure rc stored hrc hlength hnothing).rc ≠ .success := hrc
        simp only [if_neg hfailed]
        rintro _ ⟨⟩
    | success bytes hlength =>
        obtain ⟨b, rfl⟩ := List.length_eq_one_iff.mp hlength
        -- one more byte of the field has been read
        have hread : (t.log (.netRead .length 1 .success [b])).trace =
            lengthReads (field ++ [b]) ++ s.trace := by
          rw [lengthReads_concat, World.trace_log, htrace]
          rfl
        have hvalue := value_concat (b := b) hrem hmultiplier
        simp only [ReadResult.rc, ReadResult.bytes, List.headD_cons, if_true]
        split
        next hlast =>
          rintro _ ⟨⟩
          exact ⟨hclient, field ++ [b], hread, isLengthField_concat hfield hlast, hvalue.symm⟩
        next hmore =>
          refine ⟨hclient, field ++ [b], hread, fun a ha => ?_, hvalue, ?_⟩
          · rcases List.mem_append.mp ha with ha | ha
            · exact hfield a ha
            · rw [List.mem_singleton.mp ha]
              exact Nat.not_lt.mp hmore
          · simp only [hmultiplier, List.length_append, List.length_singleton, Nat.pow_succ,
              Nat.mod_mul_mod]

theorem wp_decodePacketRemainingLen (fuel : Nat) (s : World) :
    wp (observed allow fun _ _ => True) (decodePacketRemainingLen fuel)
      (fun r t => ∀ remLen, r = .ok remLen → Decoded s remLen t) s := by
  apply wp_loop (I := Decoding s)
  · exact fun _ _ _ => trivial
  · exact fun p t h => wp_decodeStep h
  · exact ⟨rfl, [], rfl, by simp, rfl, rfl⟩

/-- The rest of a packet has been stored behind its header, and the packet is put on record. -/
structure Completed (remLen : Nat) (s t : World) (type : UInt8) (body : List UInt8) : Prop where
  length : body.length = remLen
  readBuf : t.client.readBuf = (s.client.readBuf.store 1 (writeLenToBuffer remLen)).store
    (1 + (writeLenToBuffer remLen).length) body
  type_eq : type = headerType (s.client.readBuf 0)
  trace : t.trace = .received (MessageType.ofNibble type) ::
    (bodyReads (1 + (writeLenToBuffer remLen).length) body ++
      .stored 1 (writeLenToBuffer remLen).length :: s.trace)

theorem bodyReads_of_pos (off : Nat) {body : List UInt8} (h : 0 < body.length) :
    bodyReads off body = [.stored off body.length, .netRead .body body.length .success body] := by
  cases body with
  | nil => cases h
  | cons b body => rfl

/-- What is stored behind the header leaves the header as it is. -/
theorem header_stored (buf : Memory) (field body : List UInt8) :
    ((buf.store 1 field).store (1 + field.length) body) 0 = buf 0 := by
  rw [Memory.store_apply_of_lt _ _ (by omega), Memory.store_apply_of_lt _ _ (by decide)]

theorem wp_readPacketBody (remLen : Nat) (s : World) :
    wp (observed allow fun _ _ => True) (readPacketBody remLen)
      (fun r t => ∀ type, r = .ok type → ∃ body, Completed remLen s t type body) s := by
  simp only [readPacketBody, wp_bind, wp_modify, solo_guar, true_and]
  unfold readRemaining
  split
  next hpos =>
    simp only [netReadToBuffer, wp_bind, wp_query, solo_pre, solo_allow, wp_modify, solo_guar,
      true_and, pure_eq, wp_ret]
    intro r _
    split
    next hrc =>
      simp only [wp_bind, wp_getClient, wp_emit, true_and, wp_ret]
      rintro _ ⟨⟩
      have hlength := ReadResult.length_bytes_of_success hrc
      refine ⟨r.bytes, hlength, rfl, congrArg headerType (header_stored _ _ _), ?_⟩
      rw [bodyReads_of_pos _ (by rwa [hlength])]
      simp only [World.trace_log, World.filled, World.trace_onClient,
        World.withLength, hrc, hlength, List.cons_append, List.nil_append]
    next => rintro _ ⟨⟩
  next hzero =>
    simp only [pure_eq, wp_ret, if_true, wp_bind, wp_getClient, wp_emit, true_and]
    rintro _ ⟨⟩
    have hremLen : remLen = 0 := Nat.eq_zero_of_not_pos hzero
    have hheader := header_stored s.client.readBuf (writeLenToBuffer remLen) []
    rw [Memory.store_nil] at hheader
    refine ⟨[], hremLen.symm, ?_, congrArg headerType hheader, rfl⟩
    rw [Memory.store_nil]
    rfl

/-- A packet whose parts have been read one after the other. -/
theorem fetched_of_parts {header type : UInt8} {body : List UInt8} {remLen : Nat} {u v : World}
    (hbuffer : u.client.readBuf = s.client.readBuf.store 0 [header])
    (htrace : u.trace = .stored 0 1 :: .netRead .header 1 .success [header] :: s.trace)
    (hdecoded : Decoded u remLen v) (hcompleted : Completed remLen v t type body) :
    ∃ p : FetchedPacket, headerType p.header = type ∧ Fetched p s t := by
  obtain ⟨hclient, field, hfield, hisField, hvalue⟩ := hdecoded
  obtain ⟨rfl, hreadBuf, htype, hlast⟩ := hcompleted
  have hheader : v.client.readBuf 0 = header := by
    rw [hclient, hbuffer]
    rfl
  rw [hheader] at htype
  refine ⟨⟨header, field, body, hisField, hvalue⟩, htype.symm, ?_, s, .refl s, ?_⟩
  · rw [hclient, hbuffer] at hreadBuf
    have hload := Incoming.load_stored s.client.readBuf header (writeLenToBuffer body.length) body
    rw [← hreadBuf, ← List.length_append, Nat.add_comm, ← List.length_cons] at hload
    exact hload
  · rw [hlast, hfield, htrace, htype]
    simp [FetchedPacket.reads]

theorem fetched_of_extends {p : FetchedPacket} {u : World} (hu : Extends s u) (h : Fetched p u t) :
    Fetched p s t := by
  obtain ⟨hheld, v, hv, htrace⟩ := h
  exact ⟨hheld, v, hu.trans hv, htrace⟩

theorem wp_internalReadPacket (fuel : Nat) (s : World) :
    wp (observed allow fun _ _ => True) (internalReadPacket fuel)
      (fun r t => ∀ type, r = .ok type →
        ∃ p : FetchedPacket, headerType p.header = type ∧ Fetched p s t) s := by
  simp only [internalReadPacket, countdown, netReadToBuffer, wp_bind, wp_getClient, wp_emit,
    wp_query, solo_pre, solo_allow, wp_modify, solo_guar, true_and, pure_eq, wp_ret]
  intro r _
  let s' := s.log (.countdown .packet s.client.packetTimeoutMs)
  let u := s'.filled .header 0 r
  split
  next => rintro _ ⟨⟩
  next =>
    split
    next => rintro _ ⟨⟩
    next hrc =>
      simp only [ne_eq, not_not] at hrc
      obtain ⟨header, hheader⟩ := List.length_eq_one_iff.mp (ReadResult.length_bytes_of_success hrc)
      -- the header is the first byte of the packet
      have hbuffer : u.client.readBuf = s'.client.readBuf.store 0 [header] := by
        rw [← hheader]
        rfl
      have htrace : u.trace = .stored 0 1 :: .netRead .header 1 .success [header] :: s'.trace := by
        simp only [u, World.filled, World.trace_log, World.trace_onClient, hrc, hheader,
          List.length_singleton]
      simp only [wp_bind]
      apply wp_mono _ (wp_decodePacketRemainingLen fuel u)
      intro res v hv
      split
      next => rintro _ ⟨⟩
      next remLen =>
        simp only [readPacketOfLength, wp_bind, wp_getClient, true_and]
        split
        next =>
          simp only [wp_bind, pure_eq, wp_ret]
          apply wp_mono _ (wp_onlyReads v (Within.loop (onlyReads_drainStep _ _) fuel _))
          exact fun _ _ _ => by simp
        next =>
          apply wp_mono _ (wp_readPacketBody remLen v)
          intro res t ht type hres
          obtain ⟨body, hcompleted⟩ := ht type hres
          obtain ⟨p, htype, hfetched⟩ := fetched_of_parts hbuffer htrace (hv remLen rfl) hcompleted
          exact ⟨p, htype, fetched_of_extends (Extends.log s rfl) hfetched⟩

section Waiting

variable {call : Call → M IotError} {packetType : MessageType}

/-- A packet of this type has just been read. -/
def FetchedOfType (packetType : MessageType) (s t : World) : Prop :=
  ∃ p : FetchedPacket, headerType p.header = packetType.code ∧ Fetched p s t

variable (hcall : ∀ c, Extending allow (call c)) (hack : packetType.isAck = true)

include hcall hack

/-- No handler runs when a packet of this type has been read. -/
theorem wp_internalCycleRead (fuel : Nat) (s : World) :
    wp (observed allow fun _ _ => True) (internalCycleRead fuel call .command)
      (fun r t => Extends s t ∧ (r.2 = some packetType.code → FetchedOfType packetType s t)) s := by
  refine wp_mono (fun r t ht => ⟨ht.1.2, ht.2⟩) (wp_and
    (allSteps_extending.internalCycleRead (extending_deliver hcall fuel) .command s trivial) ?_)
  simp only [internalCycleRead, wp_bind]
  apply wp_mono _ (wp_unchanged s (within_lockMutex (fun _ => rfl) _))
  rintro threadRc s rfl
  split
  next => rintro ⟨⟩
  next =>
    simp only [wp_bind]
    apply wp_mono _ (wp_internalReadPacket fuel s)
    intro r t ht
    apply wp_mono _ (wp_unchanged t (within_unlockMutex (fun _ => rfl) _))
    rintro threadRc t rfl
    split
    next => split <;> rintro ⟨⟩
    next => rintro ⟨⟩
    next type =>
      have hfetched : type = packetType.code → FetchedOfType packetType s t := by
        rintro rfl
        exact ht _ rfl
      split
      next => exact fun h => hfetched (Option.some.inj h)
      next =>
        rw [wp_bind]
        by_cases htype : type = packetType.code
        · rw [htype, dispatchPacket_ack fuel .command hack]
          exact fun _ => hfetched htype
        · apply wp_mono _ (allSteps_extending.dispatchPacket (extending_deliver hcall fuel) .command
            type t trivial)
          exact fun _ _ _ h => absurd (Option.some.inj h) htype

/-- Step lemma: while the loop goes on, the type that it remembers is not the one it waits for. -/
theorem wp_waitForReadStep (fuel : Nat) {type : UInt8} (htype : type ≠ packetType.code)
    (ht : Extends s t) :
    wp (observed allow fun _ _ => True) (waitForReadStep fuel call packetType type)
      (fun r u => Sum.elim (fun type => type ≠ packetType.code ∧ Extends s u)
        (fun r => r.2 = packetType.code → FetchedOfType packetType s u) r) t := by
  simp only [waitForReadStep, wp_bind, wp_hasTimerExpired, true_and]
  intro expired _
  split
  next => exact fun h => absurd h htype
  next =>
    rw [wp_bind]
    apply wp_mono _ (wp_internalCycleRead hcall hack fuel t)
    rintro ⟨rc, read⟩ u ⟨hextends, hfetched⟩
    split
    next hnext => exact ⟨hnext.2, ht.trans hextends⟩
    next =>
      intro h
      cases read with
      | none => exact absurd h htype
      | some read =>
          obtain ⟨p, hp, hfetched⟩ := hfetched (congrArg some h)
          exact ⟨p, hp, fetched_of_extends ht hfetched⟩

theorem wp_internalWaitForRead (fuel : Nat) (s : World) :
    wp (observed allow fun _ _ => True) (internalWaitForRead fuel call packetType)
      (fun rc t => rc = .success → ∃ u,
        FetchedOfType packetType (s.log (.enter (.waiting packetType))) u ∧
          t = u.log (.leave (.waiting packetType) .success)) s := by
  let s' := s.log (.enter (.waiting packetType))
  rw [internalWaitForRead, wp_framed]
  refine ⟨trivial, ?_⟩
  simp only [wp_bind]
  apply wp_mono (Φ := fun (r : IotError × UInt8) t =>
    r.2 = packetType.code → FetchedOfType packetType s' t)
  · intro r t ht
    split
    next => exact ⟨trivial, by simp⟩
    next hcode =>
      refine ⟨trivial, fun hrc => ?_⟩
      have htype : r.2 = packetType.code := by
        by_contra hne
        exact hcode ⟨by rw [hrc]; decide, by rw [hrc]; decide, hne⟩
      rw [hrc]
      exact ⟨t, ht htype, rfl⟩
  · apply wp_loop (I := fun type t => type ≠ packetType.code ∧ Extends s' t)
    · exact fun _ _ _ => trivial
    · exact fun type t ht => wp_waitForReadStep hcall hack fuel ht.1 ht.2
    · exact ⟨(MessageType.code_ne_zero hack).symm, .refl s'⟩

end Waiting

end Waits

/-! ## The head of the loop -/

section Timer

variable {allow : Policy} {fuel turns : Nat} {call : Call → M IotError} {packetType : MessageType}
  {type : UInt8} {s t w : World}

/-- A wait at the head of its loop, with so many turns to go and the type of the last packet. -/
def waitingFrom (fuel : Nat) (call : Call → M IotError) (packetType : MessageType) (turns : Nat)
    (readPacketType : UInt8) : M IotError := do
  let rc ← (do
    let (rc, readPacketType) ← Program.loop (waitForReadStep fuel call packetType)
      turns readPacketType
    if rc ≠ .mqttRequestTimeoutError ∧ rc ≠ .networkDisconnectedError ∧
        readPacketType ≠ packetType.code then return .failure
    else return rc : M IotError)
  emit (.leave (.waiting packetType) rc)
  return rc

/-- A wait comes to the head of its loop first. -/
theorem steps_waitingFrom :
    Steps allow (internalWaitForRead fuel call packetType, w)
      (waitingFrom fuel call packetType fuel 0, w.log (.enter (.waiting packetType))) :=
  .single (step_act_iff.mpr rfl)

/-- A turn that does not end the wait comes back to the head of the loop. -/
theorem steps_waitingFrom_again {rc : IotError} {read : Option UInt8}
    (htimer : allow (.hasTimerExpired .command) s false)
    (hread : Returns allow (internalCycleRead fuel call .command) s (rc, read) t)
    (hrc : rc ≠ .networkDisconnectedError) (htype : read.getD type ≠ packetType.code) :
    Steps allow (waitingFrom fuel call packetType (turns + 1) type, s)
      (waitingFrom fuel call packetType turns (read.getD type), t) := by
  have hturn : Returns allow (waitForReadStep fuel call packetType type) s
      (.inl (read.getD type)) t := by
    apply returns_bind.mpr
    refine ⟨false, s, .single (.ask htimer), returns_bind.mpr ⟨_, t, hread, ?_⟩⟩
    simp only [if_pos (And.intro hrc htype)]
    exact .refl
  exact Steps.bind _ (Steps.bind _ (Steps.bind _ hturn))

/-- The timer is asked at the head of the loop. If it has expired, the wait is over. -/
theorem waitingFrom_succ (fuel turns : Nat) (call : Call → M IotError) (packetType : MessageType)
    (type : UInt8) :
    ∃ k, waitingFrom fuel call packetType (turns + 1) type = .ask (.hasTimerExpired .command) k ∧
      k true = .act (·.log (.leave (.waiting packetType) .mqttRequestTimeoutError)) fun _ =>
        .ret .mqttRequestTimeoutError :=
  ⟨_, rfl, rfl⟩

end Timer

/-- What can be relied on when a wait returns: a success says that the packet in the receive buffer
is one of this type, read by the wait itself as the last thing that has happened. The timer is
asked at the head of each turn, and ends the wait if it has expired. -/
structure WaitsRightly (fuel : Nat) (call : Call → M IotError) (packetType : MessageType)
    (w : World) : Prop where
  success : ∀ t, Returns anything (internalWaitForRead fuel call packetType) w .success t →
    ∃ u, Waits.FetchedOfType packetType (w.log (.enter (.waiting packetType))) u ∧
      t = u.log (.leave (.waiting packetType) .success)
  starts : Steps anything (internalWaitForRead fuel call packetType, w)
    (waitingFrom fuel call packetType fuel 0, w.log (.enter (.waiting packetType)))
  again : ∀ turns type s rc read t,
    Returns anything (internalCycleRead fuel call .command) s (rc, read) t →
    rc ≠ .networkDisconnectedError → read.getD type ≠ packetType.code →
    Steps anything (waitingFrom fuel call packetType (turns + 1) type, s)
      (waitingFrom fuel call packetType turns (read.getD type), t)
  expired : ∀ turns type s,
    ∃ k, waitingFrom fuel call packetType (turns + 1) type = .ask (.hasTimerExpired .command) k ∧
      ∀ rc t, Returns anything (k true) s rc t ↔ rc = .mqttRequestTimeoutError ∧
        t = s.log (.leave (.waiting packetType) .mqttRequestTimeoutError)

/-- Whatever the network brings and whatever handlers do, a wait for an acknowledgement succeeds
only with one of that type in the receive buffer. -/
theorem waitsRightly {packetType : MessageType} (hack : packetType.isAck = true) (fuel fuel' : Nat)
    (w : World) : WaitsRightly fuel (api fuel') packetType w where
  success t hret := by
    have hcall : ∀ c, Extending anything (api fuel' c) := extending_api fuel'
    have hwp := Waits.wp_internalWaitForRead hcall hack fuel w
    exact wp_returns hwp hret rfl
  starts := steps_waitingFrom
  again turns type s rc read t hread hrc htype := steps_waitingFrom_again trivial hread hrc htype
  expired turns type s := by
    obtain ⟨k, hhead, hexpired⟩ := waitingFrom_succ fuel turns (api fuel') packetType type
    refine ⟨k, hhead, fun rc t => ?_⟩
    rw [hexpired, returns_act, returns_ret, eq_comm, eq_comm (a := t)]

def subackWait (arrivals : List Arrival) (calls : List (Option Call)) :
    Option IotError × Script × World :=
  (internalWaitForRead 20 (api 20) .suback).run Script.answer ⟨arrivals, calls⟩ subscribedWorld

/-- A message comes first, whose handler publishes and reads the PUBACK. -/
theorem fetchedOfType_subackWait :
    ∃ u, Waits.FetchedOfType .suback (subscribedWorld.log (.enter (.waiting .suback))) u ∧
      (subackWait (messagePacket ++ pubackPacket 3 ++ subackPacket 9) [some publishCall]).2.2 =
        u.log (.leave (.waiting .suback) .success) :=
  (@waitsRightly .suback rfl 20 20 subscribedWorld).success _
    (returns_run (fun _ _ _ _ => trivial) (keepsTo_true _ _ _) (by decide +kernel))

end MqttClient
