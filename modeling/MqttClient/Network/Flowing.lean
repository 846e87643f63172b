import MqttClient.Network.Channel
import MqttClient.Session.Recording
import MqttClient.Session.Streams

/-! # Connections over TLS on which all goes well

No read or write fails and no timer expires, however the library divides up the bytes. To the
client such a connection is a stream from which all is read that is asked for.
-/

namespace MqttClient.Network

open Effect Program

/-- Every read and every write succeeds, no timer expires, and the handlers make no calls. -/
def Flows : (q : MqttClient.Query) → MqttClient.Answer q → Prop
  | .netRead _ _, result => result.rc = .success
  | .netWrite _, result => result.rc = .success
  | .hasTimerExpired _, expired => expired = false
  | .lock _, ok | .unlock _, ok => ok = true
  | .application, next => next = none
  | .netConnect, _ => False
  | .netDisconnect, rc | .netIsConnected, rc | .netDestroy, rc => rc = .success

/-- A connection over TLS on which everything succeeds. -/
def FlowingTls (c : Connection) (q : MqttClient.Query) (a : MqttClient.Answer q)
    (c' : Connection) : Prop :=
  OverTls c q a c' ∧ Flows q a

theorem flowingTls_refines : Environment.Refines FlowingTls OverTls := fun _ _ _ _ h => h.1

/-- What comes in is the stream, and so much of it has been read. -/
structure Streams (stream : Memory) (c : Connection) (r : Reader) : Prop where
  incoming : c.incoming = stream
  received : c.received = r.bytes

/-- Such a connection answers as a stream does from which all is read that is asked for. -/
theorem answer_of_flowingTls {stream : Memory} {c c' : Connection} {r : Reader}
    {q : MqttClient.Query} {a : MqttClient.Answer q} (h : Streams stream c r)
    (hanswer : FlowingTls c q a c') :
    ((Incoming.ofStream stream).answer r q).1 = a ∧
      Streams stream c' ((Incoming.ofStream stream).answer r q).2 := by
  obtain ⟨hover, hflows⟩ := hanswer
  cases overTls_refines _ _ _ _ hover with
  | @read site n result hbytes _ =>
      cases result with
      | failure rc stored hrc => exact absurd hflows hrc
      | success bytes hlength =>
          have hnext : bytes = (Incoming.ofStream stream).slice r.bytes n := by
            change bytes = stream.load r.bytes n
            rw [← h.incoming, ← h.received, ← hlength]
            exact hbytes
          have hread := (Incoming.ofStream stream).read_of_none (r := r) n rfl
          have hreader := (Incoming.ofStream stream).next_of_none (r := r) n rfl
          subst hnext
          refine ⟨hread, h.incoming, ?_⟩
          change c.received + ((Incoming.ofStream stream).slice r.bytes n).length =
            ((Incoming.ofStream stream).next r n).bytes
          rw [hreader, hlength, h.received]
  | write result hrc =>
      obtain ⟨rc, written, hwritten⟩ := result
      obtain rfl : rc = .success := hflows
      obtain rfl : written = _ := hrc.mp rfl
      exact ⟨rfl, h.incoming, h.received⟩
  | connect => exact absurd hflows id
  | other a hq =>
      cases q with
      | netConnect | netRead | netWrite => cases hq
      | netDisconnect | netIsConnected | netDestroy | hasTimerExpired | lock | unlock
      | application => exact ⟨hflows.symm, h⟩

/-! ## A library that moves all bytes at once -/

section Generous

/-- Such a library, and a clock that stands still. -/
def generous (_ : Unit) : (q : Query) → Answer q × Unit
  | .sslRead n => (⟨n, Int.le_refl _⟩, ())
  | .sslWrite _ n => (⟨n, Int.le_refl _⟩, ())
  | .getTimeOfDay => ((⟨0, 0⟩ : TimeVal), ())

variable {off n : Nat} {s : Link}

theorem run_hasTimerExpired_generous (check : TimerCheck) (s : Link) :
    (hasTimerExpired check oneSecond).run generous () s =
      (some false, (), s.log (.checked check false)) := rfl

theorem run_sslRead_generous (off n : Nat) (s : Link) :
    (sslRead off n).run generous () s =
    (some (n : Int), (), (s.stored off n).log (.read n n)) := rfl

theorem run_sslWrite_generous (off n : Nat) (s : Link) :
    (sslWrite off n).run generous () s = (some (n : Int), (), s.log (.write off n n)) := rfl

theorem exists_run_iotTlsRead (off n : Nat) (s : Link) : ∃ readLen t,
    (iotTlsRead 1 off n oneSecond).run generous () s = (some (.success, readLen), (), t) := by
  cases n with
  | zero => exact ⟨_, _, rfl⟩
  | succ n =>
      have hpos : ((n + 1 : Nat) : Int) > 0 := Int.natCast_pos.mpr n.succ_pos
      refine ⟨some (n + 1), ((s.stored off (n + 1 : Nat)).log (.read (n + 1) (n + 1 : Nat))).log
        (.checked .behindRead false), ?_⟩
      simp only [iotTlsRead, iotTlsReadLoop, if_pos n.succ_pos, Program.loop, iotTlsReadStep,
        run_bind, run_sslRead_generous, if_pos hpos, untilExpired, run_hasTimerExpired_generous,
        Int.toNat_natCast, Nat.sub_self, Nat.zero_add, Bool.false_eq_true, if_false,
        gt_iff_lt, Nat.lt_irrefl, pure_eq, run_ret, if_true]

theorem exists_run_iotTlsWrite (off : Nat) (hn : n < 2 ^ 64) (s : Link) : ∃ t,
    (iotTlsWrite 2 0 off n oneSecond).run generous () s.fresh = (some (.success, n), (), t) ∧
      InTime t.exchanges := by
  cases n with
  | zero =>
      refine ⟨_, rfl, ?_, ?_⟩
      · simp [Link.log, Link.fresh]
      · exact fun h' heq => by cases heq
  | succ n =>
      have hpos : ¬ ((n + 1 : Nat) : Int) ≤ 0 := Int.not_le.mpr (Int.natCast_pos.mpr n.succ_pos)
      have hadd : addSize 0 ((n + 1 : Nat) : Int) = n + 1 := by
        rw [addSize]
        omega
      refine ⟨(((s.fresh.log (.checked .loop false)).log (.checked .beforeWrite false)).log
        (.write off (n + 1) (n + 1 : Nat))).log (.checked .behindLoop false), ?_, ?_, ?_⟩
      · simp only [iotTlsWrite, Program.loop, iotTlsWriteStep, if_pos n.succ_pos, retryStep,
          run_bind, run_sslWrite_generous, pure_eq, run_ret, if_neg hpos,
          run_hasTimerExpired_generous, Bool.false_eq_true, if_false, Nat.sub_zero, hadd,
          Nat.add_zero, Nat.lt_irrefl, false_and]
      · simp [Link.log, Link.fresh]
      · exact fun h' heq => by cases heq

/-- What a connection can answer with success. -/
def canFlow : MqttClient.Query → Bool
  | .netConnect => false
  | .netWrite bytes => bytes.length < 2 ^ 64
  | _ => true

theorem exists_flowingTls_read (c : Connection) (site : ReadSite) (n : Nat) :
    ∃ a c', FlowingTls c (.netRead site n) a c' := by
  obtain ⟨readLen, t, hrun⟩ := exists_run_iotTlsRead 0 n (c.link c.incoming)
  have hreturns : Returns anything (iotTlsRead 1 0 n oneSecond) (c.link c.incoming)
      (.success, readLen) t := by
    have h := returns_run (fun _ _ _ _ => trivial) (keepsTo_true _ _ _) (congrArg Prod.fst hrun)
    rwa [hrun] at h
  have hfilled := ((iotTlsRead_readsRightly 1 0 n oneSecond (c.link c.incoming)).success_iff
    _ _ hreturns).mp rfl
  have hcount : t.consumed - c.received = n := by
    rw [hfilled.consumed]
    exact Nat.add_sub_cancel_left ..
  let result : ReadResult n := .success (t.memory.load 0 n) (Memory.length_load _ _ _)
  have hbytes : result.bytes = t.memory.load 0 (t.consumed - c.received) := by rw [hcount]; rfl
  exact ⟨result, _, .read result hreturns rfl hbytes, rfl⟩

theorem exists_flowingTls_write (c : Connection) {bytes : List UInt8}
    (hlen : bytes.length < 2 ^ 64) : ∃ a c', FlowingTls c (.netWrite bytes) a c' := by
  let memory := c.incoming.store 0 bytes
  obtain ⟨t, hrun, htime⟩ := exists_run_iotTlsWrite 0 hlen (c.link memory)
  have hreturns : Returns anything (iotTlsWrite 2 0 0 bytes.length oneSecond) (c.link memory)
      (.success, bytes.length) t := by
    have h := returns_run (fun _ _ _ _ => trivial) (keepsTo_true _ _ _) (congrArg Prod.fst hrun)
    rwa [hrun] at h
  let result : WriteResult bytes.length := ⟨.success, bytes.length, Nat.le_refl _⟩
  exact ⟨result, _, .write result hlen (Memory.load_store _ _ _) hreturns htime rfl rfl, rfl⟩

/-- There is such a connection. -/
theorem exists_flowingTls (c : Connection) {q : MqttClient.Query} (hq : canFlow q = true) :
    ∃ a c', FlowingTls c q a c' := by
  cases q with
  | netConnect => cases hq
  | netRead site n => exact exists_flowingTls_read c site n
  | netWrite bytes => exact exists_flowingTls_write c (of_decide_eq_true hq)
  | netDisconnect | netIsConnected | netDestroy => exact ⟨.success, c, .other _ rfl, rfl⟩
  | hasTimerExpired => exact ⟨false, c, .other _ rfl, rfl⟩
  | lock | unlock => exact ⟨true, c, .other _ rfl, rfl⟩
  | application => exact ⟨none, c, .other _ rfl, rfl⟩

/-- The run in which all goes well is one over TLS. -/
theorem exists_returnsIn_flowing {α : Type} {stream : Memory} {p : MqttClient.M α}
    {c : Connection} {r : Reader} {s : World} {a : α} (h : Streams stream c r)
    (hcan : p.keepsTo (Incoming.ofStream stream).answer (fun q _ _ => canFlow q) r s = true)
    (hrun : (p.run (Incoming.ofStream stream).answer r s).1 = some a) :
    ∃ c' t, ReturnsIn FlowingTls p c s a c' t := by
  have hanswer (c : Connection) (r : Reader) (q : MqttClient.Query) (hstreams : Streams stream c r)
      (hq : canFlow q = true) : ∃ c', FlowingTls c q ((Incoming.ofStream stream).answer r q).1 c' ∧
        Streams stream c' ((Incoming.ofStream stream).answer r q).2 := by
    obtain ⟨b, c', hflows⟩ := exists_flowingTls c hq
    obtain ⟨rfl, hstreams'⟩ := answer_of_flowingTls hstreams hflows
    exact ⟨c', hflows, hstreams'⟩
  obtain ⟨c', -, hreturns⟩ :=
    exists_returnsIn_of_run (fun c r q _ => hanswer c r q) h hcan (Prod.ext hrun rfl)
  exact ⟨c', _, hreturns⟩

end Generous

/-- The client, whose record this is, finds a connection on which these bytes come in next. -/
def Connection.feeding (w : World) (bytes : List UInt8) : Connection :=
  ⟨Memory.store (fun _ => 0) 0 bytes, 0, w.trace.input, w.trace.output⟩

/-- Two messages that are published, and what acknowledges the first one. -/
def sampleBytes : List UInt8 := [0x32, 6, 0, 1, 97, 0, 2, 33, 0x31, 3, 0, 1, 98]
def samplePuback : List UInt8 := [0x40, 2, 0, 2]

end MqttClient.Network
