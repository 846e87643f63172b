import MqttClient.Network.Packets
import MqttClient.Session.Loopback

/-! # The whole stack

On top of the TLS wrapper the client's record of the bytes that it has read and written agrees
with the library. So what one client publishes over TLS, however the library divides it up,
arrives at the handlers of the other one.
-/

namespace MqttClient.Network

open Effect Program

/-- The client has on record what the library has delivered and accepted. -/
structure OnRecord (c : Connection) (w : World) : Prop where
  input : w.trace.input = c.delivered
  output : w.trace.output = c.outgoing

section Record

variable {α : Type} {c c' : Connection} {w w' : World}

/-- What a channel of bytes moves is what its answers say. -/
theorem moves_byteChannel {q : MqttClient.Query} {a : MqttClient.Answer q}
    (h : ByteChannel c q a c') :
    (c'.delivered, c'.outgoing) = Query.moves q a (c.delivered, c.outgoing) := by
  cases h with
  | read result => rfl
  | write result => rfl
  | connect => rfl
  | other a hq =>
      cases q with
      | netConnect | netRead | netWrite => cases hq
      | netDisconnect | netIsConnected | netDestroy | hasTimerExpired | lock | unlock
      | application => rfl

/-- A program that keeps the record keeps it in agreement with the library. -/
theorem OnRecord.returnsIn {p : MqttClient.M α} {a : α} (hp : KeepsRecord p) (hstart : OnRecord c w)
    (h : ReturnsIn OverTls p c w a c' w') : OnRecord c' w' := by
  have hagree := hp.returnsIn (fun c : Connection => (c.delivered, c.outgoing))
    (fun _ _ _ _ hanswer => moves_byteChannel hanswer)
    (Prod.ext hstart.input.symm hstart.output.symm) (h.refine overTls_refines)
  exact ⟨(congrArg Prod.fst hagree).symm, (congrArg Prod.snd hagree).symm⟩

end Record

/-! ## From one client to the other -/

/-- The messages have been published over the connection, each with success, while these bytes
came in and these went out. -/
structure PublishedOver (ms : List Message) (input output : List UInt8) (c : Connection)
    (s : World) (rcs : List IotError) (c' : Connection) (t : World) : Prop where
  rcs_eq : rcs = List.replicate ms.length .success
  received : c'.received = c.received + input.length
  outgoing : c'.outgoing = c.outgoing ++ output
  handed : t.trace.handed = s.trace.handed

/-- The messages have been read from the connection, each by one turn and handed to its handlers,
while these bytes came in and these went out. -/
structure ReceivedOver (ms : List Message) (input output : List UInt8) (c : Connection)
    (s : World) (results : List (IotError × Option UInt8)) (c' : Connection) (t : World) :
    Prop where
  results_eq : results = List.replicate ms.length (.success, some MessageType.publish.code)
  received : c'.received = c.received + input.length
  outgoing : c'.outgoing = c.outgoing ++ output
  handed : t.trace.handed =
    (ms.flatMap (·.calls s.client.messageHandlers)).reverse ++ s.trace.handed

section Exchange

variable {ms : List Message} {fuel : Nat} {c c' : Connection} {s t : World}

theorem keepsRecord_publishes (fuel : Nat) (ms : List Message) :
    KeepsRecord (publishes fuel ms) := by
  induction ms with
  | nil => exact records_pure _
  | cons m ms ih =>
      exact (keepsRecord_api fuel _).bind fun _ => ih.bind fun _ => records_pure _

theorem keepsRecord_cycleReads {call : Call → MqttClient.M IotError}
    (hcall : ∀ c, KeepsRecord (call c)) (fuel : Nat) (timer : TimerName) (turns : Nat) :
    KeepsRecord (cycleReads fuel call timer turns) := by
  induction turns with
  | zero => exact records_pure _
  | succ turns ih =>
      exact (keepsRecord_internalCycleRead hcall fuel timer).bind fun _ =>
        ih.bind fun _ => records_pure _

/-- What has gone out over the connection is what has been recorded as written. -/
theorem outgoing_eq {α : Type} {p : MqttClient.M α} {a : α} {output : List UInt8}
    (hp : KeepsRecord p) (hstart : OnRecord c s) (h : ReturnsIn FlowingTls p c s a c' t)
    (houtput : t.trace.output = s.trace.output ++ output) :
    c'.outgoing = c.outgoing ++ output := by
  have hend := hstart.returnsIn hp (h.refine flowingTls_refines)
  rw [← hend.output, houtput, hstart.output]

theorem publishedOver {rcs : List IotError} (hidle : s.client.clientState = .connectedIdle)
    (hcan : ∀ m ∈ ms, m.CanBePublished s.client) (hstart : OnRecord c s) (hfuel : 4 ≤ fuel)
    (hstream : c.incoming.load c.received
      ((packetsOf s.client.nextPacketId ms).flatMap (·.acknowledgement)).length =
        (packetsOf s.client.nextPacketId ms).flatMap (·.acknowledgement))
    (h : ReturnsIn FlowingTls (publishes (fuel + 1) ms) c s rcs c' t) :
    PublishedOver ms ((packetsOf s.client.nextPacketId ms).flatMap (·.acknowledgement))
      ((packetsOf s.client.nextPacketId ms).flatMap (·.bytes)) c s rcs c' t := by
  have hends := ends_publishes (r := ⟨0, c.received⟩) ms hidle hcan hfuel hstream
  have hstreams : Streams c.incoming c ⟨0, c.received⟩ := ⟨rfl, rfl⟩
  have hwp := hends.wpIn hstreams fun _ _ _ _ _ => answer_of_flowingTls
  obtain ⟨r, hread, hrcs, hbytes, -, last, hadvances⟩ := wpIn_returns hwp h
  exact ⟨hrcs, hread.received.trans hbytes,
    outgoing_eq (keepsRecord_publishes _ _) hstart h hadvances.output, hadvances.handed⟩

theorem receivedOver {results : List (IotError × Option UInt8)}
    {call : Call → MqttClient.M IotError} (hcall : ∀ c, KeepsRecord (call c)) (timer : TimerName)
    (last : UInt16) (hread : ∀ m ∈ ms, m.CanBeRead s.client) (hstart : OnRecord c s)
    (henough : ∀ m ∈ ms, m.size ≤ fuel)
    (hstream : c.incoming.load c.received ((packetsOf last ms).flatMap (·.bytes)).length =
      (packetsOf last ms).flatMap (·.bytes))
    (h : ReturnsIn FlowingTls (cycleReads fuel call timer ms.length) c s results c' t) :
    ReceivedOver ms ((packetsOf last ms).flatMap (·.bytes))
      ((packetsOf last ms).flatMap (·.acknowledgement)) c s results c' t := by
  have hends := ends_readMessages (r := ⟨0, c.received⟩) call timer ms last hread henough hstream
  have hstreams : Streams c.incoming c ⟨0, c.received⟩ := ⟨rfl, rfl⟩
  have hwp := hends.wpIn hstreams fun _ _ _ _ _ => answer_of_flowingTls
  obtain ⟨r, htaken, hresults, hbytes, -, hadvances⟩ := wpIn_returns hwp h
  exact ⟨hresults, htaken.received.trans hbytes,
    outgoing_eq (keepsRecord_cycleReads hcall _ _ _) hstart h hadvances.output, hadvances.handed⟩

theorem onRecord_feeding (w : World) (bytes : List UInt8) : OnRecord (.feeding w bytes) w :=
  ⟨rfl, rfl⟩

end Exchange

end MqttClient.Network
