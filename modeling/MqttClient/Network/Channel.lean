import MqttClient.Client.Packet
import MqttClient.Effect.Environment
import MqttClient.Effect.Observing
import MqttClient.Network.Writing

/-! # The client on top of the TLS wrapper

What the client asks of its network stack is answered by runs of the wrapper, however the
library divides up the bytes. What it gets to see then is a channel that neither loses,
repeats nor reorders bytes, as long as no write finds its timer expired between two looks.
-/

namespace MqttClient.Network

open Effect Program

/-! ## What a write hands over -/

/-- The bytes that the library has accepted, in order. -/
def handedOver (memory : Memory) : List Exchange → List UInt8
  | [] => []
  | .write off _ r :: h => handedOver memory h ++ memory.load off r.toNat
  | _ :: h => handedOver memory h

/-- The timer has not expired between the look at it by the loop and the write, and it has not
been set back behind the loop. -/
structure InTime (h : List Exchange) : Prop where
  notLate : .checked .beforeWrite true ∉ h
  staysExpired : StaysExpired h

section HandingOver

variable {off len n : Nat} {timer : Timer} {s t : Link}

/-- After `n` bytes of a write that was started at `s`. -/
structure HandingOver (off len : Nat) (s : Link) (n : Nat) (t : Link) : Prop where
  memory : t.memory = s.memory
  stream : t.stream = s.stream
  consumed : t.consumed = s.consumed
  inOrder : .checked .beforeWrite true ∉ t.exchanges →
    n ≤ len ∧ handedOver s.memory t.exchanges = s.memory.load off n

theorem handingOver_fresh (off len : Nat) (s : Link) : HandingOver off len s.fresh 0 s.fresh where
  memory := rfl
  stream := rfl
  consumed := rfl
  inOrder _ := ⟨Nat.zero_le len, rfl⟩

theorem HandingOver.checked (h : HandingOver off len s n t) (check : TimerCheck) (expired : Bool) :
    HandingOver off len s n (t.log (.checked check expired)) where
  memory := h.memory
  stream := h.stream
  consumed := h.consumed
  inOrder hnotLate := h.inOrder fun hmem => hnotLate (List.mem_cons_of_mem _ hmem)

/-- Where a write comes too late nothing is said. -/
theorem HandingOver.late (h : HandingOver off len s n t) (m : Nat) :
    HandingOver off len s m (t.log (.checked .beforeWrite true)) where
  memory := h.memory
  stream := h.stream
  consumed := h.consumed
  inOrder hnotLate := absurd List.mem_cons_self hnotLate

/-- The bytes of one more write follow those of the others. -/
theorem HandingOver.wrote (h : HandingOver off len s n t) {ret : Int}
    (hret : ret ≤ (len - n : Nat)) :
    HandingOver off len s (n + ret.toNat) (t.log (.write (off + n) (len - n) ret)) where
  memory := h.memory
  stream := h.stream
  consumed := h.consumed
  inOrder hnotLate := by
    obtain ⟨hle, hbytes⟩ := h.inOrder fun hmem => hnotLate (List.mem_cons_of_mem _ hmem)
    refine ⟨by omega, ?_⟩
    change handedOver s.memory t.exchanges ++ s.memory.load (off + n) ret.toNat = _
    rw [hbytes, Memory.load_add]

/-- Adding to the number of bytes written what has been accepted. -/
theorem HandingOver.counted {ret : Int} (hlen : len < 2 ^ 64) (hpos : 0 < ret)
    (h : HandingOver off len s (n + ret.toNat) t) : HandingOver off len s (addSize n ret) t where
  memory := h.memory
  stream := h.stream
  consumed := h.consumed
  inOrder hnotLate := by
    have hle := (h.inOrder hnotLate).1
    have hsum : addSize n ret = n + ret.toNat := by
      have hadd := addSize_eq n ret
      omega
    rw [hsum]
    exact h.inOrder hnotLate

/-- How a turn of the inner loop leaves what has been handed over. -/
def Retried (off len : Nat) (s : Link) (n : Nat) (r : Int ⊕ Int × Bool) (t : Link) : Prop :=
  match r with
  | .inl _ | .inr (_, true) => HandingOver off len s n t
  | .inr (result, false) => HandingOver off len s (addSize n result) t

/-- Step lemma of the inner loop. -/
theorem wp_retryStep_handingOver (hlen : len < 2 ^ 64) (ret : Int) (h : HandingOver off len s n t) :
    wp (answered anything) (retryStep (off + n) (len - n) timer ret) (Retried off len s n) t := by
  simp only [retryStep, hasTimerExpired, sslWrite, wp_bind, wp_query, wp_modify, pure_eq, wp_ret]
  refine ⟨trivial, fun now _ => ⟨trivial, ?_⟩⟩
  cases timer.hasExpired now with
  | true => exact h.late _
  | false =>
      simp only [Bool.false_eq_true, if_false, wp_bind, wp_query, wp_modify, wp_ret]
      refine ⟨trivial, fun ret _ => ⟨trivial, ?_⟩⟩
      obtain ⟨ret, hret⟩ := ret
      have hwrote := (h.checked .beforeWrite false).wrote hret
      split
      next hnonpos =>
        have hzero : ret.toNat = 0 := Int.toNat_of_nonpos hnonpos
        rw [hzero, Nat.add_zero] at hwrote
        split
        · exact hwrote
        · exact hwrote
      next hpos => exact hwrote.counted hlen (Int.not_le.mp hpos)

/-- Step lemma of the outer loop. -/
theorem wp_iotTlsWriteStep_handingOver (hlen : len < 2 ^ 64) (turns : Nat) {p : WriteProgress}
    (h : HandingOver off len s p.writtenSoFar t) :
    wp (answered anything) (iotTlsWriteStep turns off len timer p)
      (fun r u => Sum.elim (fun q => HandingOver off len s q.writtenSoFar u)
        (fun q => HandingOver off len s q.1.writtenSoFar u) r) t := by
  unfold iotTlsWriteStep
  split
  next hlt =>
    simp only [hasTimerExpired, wp_bind, wp_query, wp_modify, pure_eq, wp_ret]
    refine ⟨trivial, fun now _ => ⟨trivial, ?_⟩⟩
    have hchecked := h.checked .loop (timer.hasExpired now)
    split
    · exact hchecked
    · rw [wp_bind]
      apply wp_mono (Φ := fun r u => Retried off len s p.writtenSoFar (.inr r) u)
      · rintro ⟨ret, isErrorFlag⟩ u hu
        cases isErrorFlag with
        | true => exact hu
        | false => exact hu
      · apply wp_loop (I := fun _ u => HandingOver off len s p.writtenSoFar u)
        · exact fun _ _ _ => trivial
        · intro ret u hu
          apply wp_mono _ (wp_retryStep_handingOver hlen ret hu)
          intro r v hv
          cases r with
          | inl ret => exact hv
          | inr r => exact hv
        · exact hchecked
  next => exact h

/-- Run lemma: what a write hands over are the first bytes of the caller's buffer, as many as it
says. -/
theorem wp_iotTlsWrite_handingOver (turns : Nat) (ret : Int) (off : Nat) (timer : Timer)
    (hlen : len < 2 ^ 64) (s : Link) :
    wp (answered anything) (iotTlsWrite turns ret off len timer)
      (fun r t => HandingOver off len s.fresh r.2 t) s.fresh := by
  rw [iotTlsWrite, wp_bind]
  apply wp_mono (Φ := fun r t => HandingOver off len s.fresh r.1.writtenSoFar t)
  · rintro ⟨p, isErrorFlag⟩ t h
    cases isErrorFlag with
    | true => exact h
    | false =>
        simp only [Bool.false_eq_true, if_false, hasTimerExpired, wp_bind, wp_query, wp_modify,
          pure_eq, wp_ret]
        refine ⟨trivial, fun now _ => ⟨trivial, ?_⟩⟩
        have hchecked := h.checked .behindLoop (timer.hasExpired now)
        split
        · exact hchecked
        · exact hchecked
  · apply wp_loop (I := fun p t => HandingOver off len s.fresh p.writtenSoFar t)
    · exact fun _ _ _ => trivial
    · exact fun p t h => wp_iotTlsWriteStep_handingOver hlen turns h
    · exact handingOver_fresh off len s

end HandingOver

/-! ## What the client is answered -/

/-- A connection: the bytes that the library is going to deliver on it and how many of them it
has delivered; and, together with those of earlier connections, the bytes that it has delivered
and those that it has accepted. -/
structure Connection where
  incoming : Memory
  received : Nat
  delivered : List UInt8
  outgoing : List UInt8

/-- The connection as a run of the wrapper finds it, with the memory of its caller. -/
def Connection.link (c : Connection) (memory : Memory) : Link :=
  ⟨memory, c.incoming, c.received, []⟩

/-- Questions that bytes are moved for, or a connection is made. -/
def concernsBytes : MqttClient.Query → Bool
  | .netConnect | .netRead .. | .netWrite _ => true
  | _ => false

/-- The network stack of the client is the wrapper: a read or a write of the client is a run of
it, for which the memory of the caller is as it may be. -/
inductive OverTls :
    Connection → (q : MqttClient.Query) → MqttClient.Answer q → Connection → Prop where
  | read {c : Connection} {site : ReadSite} {n turns off : Nat} {timer : Timer} {memory : Memory}
      {r : IotError × Option Nat} {t : Link} (result : ReadResult n)
      (hreturns : Returns anything (iotTlsRead turns off n timer) (c.link memory) r t)
      (hrc : result.rc = r.1)
      (hbytes : result.bytes = t.memory.load off (t.consumed - c.received)) :
      OverTls c (.netRead site n) result
        { c with
          received := t.consumed
          delivered := c.delivered ++ c.incoming.load c.received (t.consumed - c.received) }
  | write {c : Connection} {bytes : List UInt8} {turns off : Nat} {uninitialized : Int}
      {timer : Timer} {memory : Memory} {r : IotError × Nat} {t : Link}
      (result : WriteResult bytes.length) (hlen : bytes.length < 2 ^ 64)
      (hmemory : memory.load off bytes.length = bytes)
      (hreturns : Returns anything (iotTlsWrite turns uninitialized off bytes.length timer)
        (c.link memory) r t)
      (htime : InTime t.exchanges) (hrc : result.rc = r.1) (hwritten : result.written = r.2) :
      OverTls c (.netWrite bytes) result
        { c with outgoing := c.outgoing ++ handedOver memory t.exchanges }
  | connect {c : Connection} (rc : IotError) (incoming : Memory) :
      OverTls c .netConnect rc { c with incoming := incoming, received := 0 }
  | other {c : Connection} {q : MqttClient.Query} (a : MqttClient.Answer q)
      (hq : concernsBytes q = false) : OverTls c q a c

def readCodes : List IotError :=
  [.success, .networkSslNothingToRead, .networkSslReadTimeoutError, .networkSslReadError]

/-- A channel of bytes: a read delivers the next ones, a write takes the first ones it is given,
and has succeeded if it has taken them all. -/
inductive ByteChannel :
    Connection → (q : MqttClient.Query) → MqttClient.Answer q → Connection → Prop where
  | read {c : Connection} {site : ReadSite} {n : Nat} (result : ReadResult n)
      (hbytes : result.bytes = c.incoming.load c.received result.bytes.length)
      (hrc : result.rc ∈ readCodes) :
      ByteChannel c (.netRead site n) result
        { c with
          received := c.received + result.bytes.length
          delivered := c.delivered ++ result.bytes }
  | write {c : Connection} {bytes : List UInt8} (result : WriteResult bytes.length)
      (hrc : result.rc = .success ↔ result.written = bytes.length) :
      ByteChannel c (.netWrite bytes) result
        { c with outgoing := c.outgoing ++ bytes.take result.written }
  | connect {c : Connection} (rc : IotError) (incoming : Memory) :
      ByteChannel c .netConnect rc { c with incoming := incoming, received := 0 }
  | other {c : Connection} {q : MqttClient.Query} (a : MqttClient.Answer q)
      (hq : concernsBytes q = false) : ByteChannel c q a c

section Refinement

variable {c : Connection} {memory : Memory}

/-- A read of the wrapper is one of the channel. -/
theorem byteChannel_read {site : ReadSite} {n turns off : Nat} {timer : Timer}
    {r : IotError × Option Nat} {t : Link} {result : ReadResult n}
    (hreturns : Returns anything (iotTlsRead turns off n timer) (c.link memory) r t)
    (hrc : result.rc = r.1) (hbytes : result.bytes = t.memory.load off (t.consumed - c.received)) :
    ByteChannel c (.netRead site n) result
      { c with
        received := t.consumed
        delivered := c.delivered ++ c.incoming.load c.received (t.consumed - c.received) } := by
  obtain ⟨delivered, -, hnext, hmemory, hconsumed⟩ := exists_readResult hreturns
  have hcount : t.consumed - c.received = delivered.bytes.length := by
    rw [hconsumed]
    exact Nat.add_sub_cancel_left ..
  have hsame : result.bytes = delivered.bytes := by
    rw [hbytes, hcount, hmemory, Memory.load_store]
  have hcode : result.rc ∈ readCodes := by
    rw [hrc]
    cases wp_returns (wp_iotTlsRead turns off n timer (c.link memory)) hreturns with
    | success => exact List.mem_cons_self
    | nothing | timeout | failed => decide
  have hbytes' : result.bytes = c.incoming.load c.received result.bytes.length := by
    rw [hsame]
    exact hnext
  have hread : ByteChannel c (.netRead site n) result _ := .read result hbytes' hcode
  rw [hcount, ← hsame, ← hbytes', hconsumed, ← hsame]
  exact hread

theorem recounted_eq_nil {ret : Int} {h : List Exchange} (hlate : .checked .beforeWrite true ∉ h) :
    recounted ret h = [] := by
  induction h with
  | nil => rfl
  | cons e h ih =>
      rw [List.mem_cons, not_or] at hlate
      obtain ⟨hne, hrest⟩ := hlate
      rw [recounted]
      · exact ih hrest
      · rintro rfl
        exact hne rfl

/-- What a write in time returns. -/
theorem writesRightly_of_inTime {turns off len : Nat} {uninitialized : Int} {timer : Timer}
    {r : IotError × Nat} {s t : Link} (hlen : len < 2 ^ 64)
    (hreturns : Returns anything (iotTlsWrite turns uninitialized off len timer) s.fresh r t)
    (htime : InTime t.exchanges) : WritesRightly off len t.exchanges r := by
  have hwp := wp_iotTlsWrite turns uninitialized off timer hlen s
  have hoffers : OffersInside off len t.exchanges := by
    apply invariant_steps (D := writing off len) (I := fun t => OffersInside off len t.exchanges) _
      hwp nofun hreturns
    exact fun _ _ ht hguar => hguar ht
  apply (wp_returns hwp hreturns hoffers).mpr
  refine ⟨.inl fun x hx => ?_, htime.staysExpired⟩
  rw [recounted_eq_nil htime.notLate] at hx
  cases hx

theorem load_le (memory : Memory) (off : Nat) {n len : Nat} (hle : n ≤ len) :
    memory.load off n = (memory.load off len).take n := by
  have hpart : memory.load (off + 0) n = ((memory.load off len).drop 0).take n :=
    Memory.load_part memory off (by omega)
  rwa [Nat.add_zero, List.drop_zero] at hpart

/-- A write of the wrapper is one of the channel. -/
theorem byteChannel_write {bytes : List UInt8} {turns off : Nat} {uninitialized : Int}
    {timer : Timer} {r : IotError × Nat} {t : Link} {result : WriteResult bytes.length}
    (hlen : bytes.length < 2 ^ 64) (hmemory : memory.load off bytes.length = bytes)
    (hreturns : Returns anything (iotTlsWrite turns uninitialized off bytes.length timer)
      (c.link memory) r t)
    (htime : InTime t.exchanges) (hrc : result.rc = r.1) (hwritten : result.written = r.2) :
    ByteChannel c (.netWrite bytes) result
      { c with outgoing := c.outgoing ++ handedOver memory t.exchanges } := by
  have hrightly := writesRightly_of_inTime (s := c.link memory) hlen hreturns htime
  have hwp := wp_iotTlsWrite_handingOver turns uninitialized off timer hlen (c.link memory)
  obtain ⟨hle, hhanded⟩ := (wp_returns hwp hreturns).inOrder htime.notLate
  have hbytes : handedOver memory t.exchanges = bytes.take result.written := by
    refine hhanded.trans ?_
    rw [hwritten]
    have hload := load_le memory off hle
    rw [hmemory] at hload
    exact hload
  rw [hbytes]
  apply ByteChannel.write
  rw [hrc, hwritten, hrightly.written]
  exact hrightly.success_iff

/-- The wrapper is a channel of bytes. -/
theorem overTls_refines : Environment.Refines OverTls ByteChannel := by
  intro c q a c' h
  cases h with
  | read result hreturns hrc hbytes => exact byteChannel_read hreturns hrc hbytes
  | write result hlen hmemory hreturns htime hrc hwritten =>
      exact byteChannel_write hlen hmemory hreturns htime hrc hwritten
  | connect rc incoming => exact .connect rc incoming
  | other a hq => exact .other a hq

end Refinement

end MqttClient.Network
