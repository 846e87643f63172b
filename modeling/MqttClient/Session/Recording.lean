import MqttClient.Client.Traversal
import MqttClient.Effect.Recording
import MqttClient.Session.Exchange

/-! # The bytes on record

The trace holds what every read has delivered and what every write has handed over: the
client's code records each of them in the step behind it, and no other step adds to them. So
the trace agrees with the network on the bytes that have gone over it.
-/

namespace MqttClient

open Effect Program

/-- The bytes that a read has delivered. -/
def Event.readBytes : Event → List UInt8
  | .netRead _ _ _ bytes => bytes
  | _ => []

/-- The bytes that the network has delivered, in order. -/
def Trace.input (t : Trace) : List UInt8 := t.reverse.flatMap Event.readBytes

/-- The bytes on record: those that have come in, and those that have gone out. -/
def World.moved (w : World) : List UInt8 × List UInt8 := (w.trace.input, w.trace.output)

/-- The bytes that an answer moves, added to those before. -/
def Query.moves : (q : Query) → Answer q → List UInt8 × List UInt8 → List UInt8 × List UInt8
  | .netRead _ _, result, x => (x.1 ++ result.bytes, x.2)
  | .netWrite bytes, result, x => (x.1, x.2 ++ bytes.take result.written)
  | _, _, x => x

/-- Bytes are put on record as they are moved. -/
abbrev KeepsRecord {α : Type} (p : M α) : Prop := p.Records World.moved Query.moves id

/-- Events that no bytes are moved by. -/
def Event.movesNothing : Event → Bool
  | .netRead .. | .netWrite .. => false
  | _ => true

section Steps

variable {α : Type}

theorem input_cons (e : Event) (t : Trace) : Trace.input (e :: t) = t.input ++ e.readBytes := by
  rw [Trace.input, List.reverse_cons, List.flatMap_append, List.flatMap_singleton]
  rfl

theorem output_cons (e : Event) (t : Trace) :
    Trace.output (e :: t) = t.output ++ Trace.output [e] :=
  Exchange.output_append [e] t

theorem moved_log (w : World) {e : Event} (h : e.movesNothing = true) :
    (w.log e).moved = w.moved := by
  have hread : e.readBytes = [] := by cases e <;> first | rfl | cases h
  have hwrite : Trace.output [e] = [] := by cases e <;> first | rfl | cases h
  have hinput := input_cons e w.trace
  have houtput := output_cons e w.trace
  rw [hread, List.append_nil] at hinput
  rw [hwrite, List.append_nil] at houtput
  exact Prod.ext hinput houtput

theorem moved_netRead (w : World) (site : ReadSite) {n : Nat} (r : ReadResult n) :
    (w.log (.netRead site n r.rc r.bytes)).moved = Query.moves (.netRead site n) r w.moved := by
  have houtput := output_cons (.netRead site n r.rc r.bytes) w.trace
  exact Prod.ext (input_cons _ _) (houtput.trans (List.append_nil _))

theorem moved_netWrite (w : World) (bytes : List UInt8) (r : WriteResult bytes.length) :
    (w.log (.netWrite bytes r.rc r.written)).moved = Query.moves (.netWrite bytes) r w.moved := by
  have hinput := input_cons (.netWrite bytes r.rc r.written) w.trace
  have hlast : Trace.output [.netWrite bytes r.rc r.written] = bytes.take r.written :=
    List.append_nil _
  have houtput := output_cons (.netWrite bytes r.rc r.written) w.trace
  rw [hlast] at houtput
  exact Prod.ext (hinput.trans (List.append_nil _)) houtput

theorem keepsRecord_emit {e : Event} (h : e.movesNothing = true) : KeepsRecord (emit e) :=
  records_modify fun w => moved_log w h

theorem keepsRecord_modifyClient (f : Client → Client) : KeepsRecord (modifyClient f) :=
  records_modify fun _ => rfl

theorem keepsRecord_getClient : KeepsRecord getClient := records_atomically fun _ => rfl

theorem keepsRecord_setClientState (change : StateChange) (expected new : ClientState) :
    KeepsRecord (setClientState change expected new) := by
  apply records_atomically
  intro w
  split
  · exact moved_log _ rfl
  · exact moved_log _ rfl

theorem keepsRecord_putClientState (new : ClientState) : KeepsRecord (putClientState new) :=
  records_modify fun _ => moved_log _ rfl

theorem keepsRecord_countdown (timer : TimerName) (duration : UInt32) :
    KeepsRecord (countdown timer duration) := keepsRecord_emit rfl

theorem keepsRecord_hasTimerExpired (timer : TimerName) : KeepsRecord (hasTimerExpired timer) :=
  records_query fun _ => rfl

theorem keepsRecord_netReadToBuffer (site : ReadSite) (off n : Nat) :
    KeepsRecord (netReadToBuffer site off n) := by
  apply records_exchange
  · intro r w
    exact (moved_log _ rfl).trans (moved_netRead (w.onClient _) site r)
  · exact fun _ => rfl

theorem keepsRecord_netReadByte (site : ReadSite) : KeepsRecord (netReadByte site) :=
  records_exchange (fun r w => moved_netRead w site r) fun _ => rfl

theorem keepsRecord_netWrite (bytes : List UInt8) : KeepsRecord (netWrite bytes) :=
  records_exchange (fun r w => moved_netWrite w bytes r) fun _ => rfl

theorem keepsRecord_lockMutex (mutex : MutexName) : KeepsRecord (lockMutex mutex) :=
  keepsRecord_getClient.bind fun _ =>
    .ite ((records_query fun _ => rfl).bind fun _ => records_pure _) (records_pure _)

theorem keepsRecord_unlockMutex (mutex : MutexName) : KeepsRecord (unlockMutex mutex) :=
  keepsRecord_getClient.bind fun _ =>
    .ite ((records_query fun _ => rfl).bind fun _ => records_pure _) (records_pure _)

theorem keepsRecord_onSuccess (rc : IotError) {next : M IotError} (h : KeepsRecord next) :
    KeepsRecord (onSuccess rc next) := .ite h (records_pure rc)

end Steps

/-! ## Packets -/

theorem keepsRecord_internalSendPacket (fuel length : Nat) (timer : TimerName) :
    KeepsRecord (internalSendPacket fuel length timer) := by
  have hstep (sent : Nat) : KeepsRecord (sendPacketStep length timer sent) :=
    .ite ((keepsRecord_hasTimerExpired timer).bind fun _ => .ite (records_pure _)
      (keepsRecord_getClient.bind fun _ => (keepsRecord_netWrite _).bind fun _ =>
        .ite (records_pure _) (records_pure _))) (records_pure _)
  refine keepsRecord_getClient.bind fun _ => .ite (records_pure _) ?_
  refine (keepsRecord_lockMutex _).bind fun rc => keepsRecord_onSuccess rc ?_
  refine (Records.loop hstep fuel 0).bind fun _ => ?_
  refine (keepsRecord_unlockMutex _).bind fun rc => keepsRecord_onSuccess rc ?_
  exact .ite ((records_modify fun _ => moved_log _ rfl).bind fun _ => records_pure _)
    (records_pure _)

theorem keepsRecord_decodePacketRemainingLen (fuel : Nat) :
    KeepsRecord (decodePacketRemainingLen fuel) := by
  apply Records.loop
  intro p
  refine .ite (records_pure _) ((keepsRecord_netReadByte _).bind fun r => ?_)
  cases r with
  | error rc => exact records_pure _
  | ok encodedByte => exact .ite (records_pure _) (records_pure _)

theorem keepsRecord_readPacketOfLength (fuel remLen : Nat) :
    KeepsRecord (readPacketOfLength fuel remLen) := by
  refine keepsRecord_getClient.bind fun c => .ite ?_ ?_
  · refine Records.bind (Records.loop (fun p => ?_) fuel _) fun _ => records_pure _
    exact (keepsRecord_netReadToBuffer _ _ _).bind fun _ =>
      .ite (.ite (records_pure _) (records_pure _)) (records_pure _)
  · refine (records_modify fun _ => moved_log _ rfl).bind fun _ => ?_
    refine Records.bind (.ite (keepsRecord_netReadToBuffer _ _ _) (records_pure _)) fun _ => ?_
    exact .ite (keepsRecord_getClient.bind fun _ =>
      (keepsRecord_emit rfl).bind fun _ => records_pure _) (records_pure _)

theorem keepsRecord_internalReadPacket (fuel : Nat) : KeepsRecord (internalReadPacket fuel) := by
  refine keepsRecord_getClient.bind fun c => (keepsRecord_countdown _ _).bind fun _ => ?_
  refine (keepsRecord_netReadToBuffer _ _ _).bind fun rc => .ite (records_pure _) ?_
  refine .ite (records_pure _) ((keepsRecord_decodePacketRemainingLen fuel).bind fun r => ?_)
  cases r with
  | error rc => exact records_pure _
  | ok remLen => exact keepsRecord_readPacketOfLength fuel remLen

/-! ## The operations -/

theorem keepsRecord_plain {α : Type} {p : M α} (h : IsPlainStep p) : KeepsRecord p := by
  cases h with
  | pure a => exact records_pure a
  | stop => exact records_stop
  | look view => exact records_atomically fun _ => rfl
  | modifyClient => exact keepsRecord_modifyClient _
  | countdown timer duration => exact keepsRecord_countdown timer duration
  | hasTimerExpired timer => exact keepsRecord_hasTimerExpired timer
  | netIsConnected => exact records_query fun _ => rfl
  | lockMutex mutex => exact keepsRecord_lockMutex mutex
  | unlockMutex mutex => exact keepsRecord_unlockMutex mutex
  | getNextPacketId => exact records_atomically fun _ => rfl
  | assignPublishId arg params =>
      refine .ite (Records.bind (records_atomically fun _ => rfl) fun id => ?_) (records_pure _)
      refine (records_modify fun w => ?_).bind fun _ => records_pure _
      cases arg <;> rfl

theorem keepsRecord_io {α : Type} {p : M α} (h : IsIoStep p) : KeepsRecord p := by
  cases h with
  | plain h => exact keepsRecord_plain h
  | send fuel length timer => exact keepsRecord_internalSendPacket fuel length timer
  | receive fuel => exact keepsRecord_internalReadPacket fuel
  | ping => exact keepsRecord_modifyClient _

theorem sequences_keepsRecord : Sequences fun _ p => KeepsRecord p where
  plain := keepsRecord_plain
  bind hp hg := hp.bind hg

/-- Apart from reading and sending packets, no step moves bytes. -/
theorem allSteps_keepsRecord : AllSteps (fun _ => True) fun _ p => KeepsRecord p where
  toSequences := sequences_keepsRecord
  delivered f hf := records_modify fun w => by
    obtain ⟨name, topic, payload, data, heq⟩ := hf w
    rw [heq]
    exact moved_log w rfl
  framed _ hbody := (keepsRecord_emit rfl).bind fun _ => hbody.bind fun _ =>
    (keepsRecord_emit rfl).bind fun _ => records_pure _
  io := keepsRecord_io
  handled := sequences_keepsRecord.internalHandlePublish keepsRecord_internalSendPacket
    (fun _ => records_modify fun _ => rfl) fun _ => records_atomically fun _ => rfl
  query q hq := records_query fun _ => by cases q <;> first | rfl | cases hq
  emit e he := keepsRecord_emit <| by cases e <;> first | rfl | cases he
  setState change expected new _ := keepsRecord_setClientState change expected new
  putState new _ := keepsRecord_putClientState new
  prepare change expected := keepsRecord_setClientState change expected _
  putBack := keepsRecord_putClientState _
  change f _ := keepsRecord_modifyClient f
  fill slot handler := (keepsRecord_modifyClient _).bind fun _ => records_pure _
  remove topicFilter := (records_modify fun _ => moved_log _ rfl).bind fun _ => records_pure _

theorem keepsRecord_init (params : InitParams) : KeepsRecord (init params) :=
  .ite ((keepsRecord_modifyClient _).bind fun _ => (keepsRecord_emit rfl).bind fun _ =>
    records_pure _) (records_pure _)

section Calls

variable {call : Call → M IotError} (hcall : ∀ c, KeepsRecord (call c)) (fuel : Nat)

include hcall

theorem keepsRecord_application : KeepsRecord (application fuel call) :=
  sequences_keepsRecord.application (records_query fun _ => rfl) hcall fuel

theorem keepsRecord_internalCycleRead (timer : TimerName) :
    KeepsRecord (internalCycleRead fuel call timer) := by
  have hdeliver := allSteps_keepsRecord.internalDeliverMessage (fun _ => trivial)
    (keepsRecord_application hcall fuel) fun _ => keepsRecord_setClientState _ _ _
  exact allSteps_keepsRecord.internalCycleRead hdeliver timer

end Calls

/-- Every call of the interface keeps the record, whatever its handlers call. -/
theorem keepsRecord_api (fuel : Nat) (c : Call) : KeepsRecord (api fuel c) := by
  refine Records.recursive (fun fuel call hcall c => ?_) fuel c
  have hsteps := allSteps_keepsRecord
  have hread := keepsRecord_internalCycleRead hcall fuel
  refine hsteps.framed trivial ?_
  apply hsteps.perform (fun _ _ => trivial) (fun _ => trivial)
    (keepsRecord_application hcall fuel) hread _ c fun params _ => keepsRecord_init params
  intro params
  apply hsteps.connect
  apply hsteps.connectFrom trivial
  exact (hsteps.composes fun _ => hsteps.internalWaitForRead hread trivial).handshake

end MqttClient
