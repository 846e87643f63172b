import MqttClient.Session.Claims
import MqttClient.Session.Outcomes

/-! # Holding a client

A thread that has been granted a claim holds the client until it gives the claim
back; its message handlers make their calls meanwhile. What such a thread does,
seen by the others, and what it can rely on: the calls that its handlers make
leave the record of claims and the state of the client as they were, as long as
they keep the connection.
-/

namespace MqttClient

open Effect Program

/-- How many claims have been granted and not been given back. -/
def Trace.claims : Trace → Nat
  | [] => 0
  | .setState .claim _ _ true :: t => claims t + 1
  | .setState .release _ _ _ :: t => claims t - 1
  | .relinquished :: t => claims t - 1
  | _ :: t => claims t

/-- The thread holds the client. -/
def World.Holds (w : World) : Prop := 0 < w.trace.claims

instance (w : World) : Decidable w.Holds := inferInstanceAs (Decidable (0 < _))

/-- The calls that neither make nor give up a connection, nor have that done. -/
def Call.keepsConnection : Call → Bool
  | .init _ | .connect _ | .disconnect | .attemptReconnect | .autoreconnectSetStatus true => false
  | _ => true

/-- A read answers no verdict on the connection, and the application keeps it. -/
def Query.keepsConnection : (q : Query) → Answer q → Prop
  | .netRead _ _, (r : ReadResult _) => r.rc.isVerdict = false
  | .application, (next : Option Call) => ∀ c, next = some c → c.keepsConnection = true
  | _, _ => True

/-- The buffers, the table and the packet identifiers are as they were. -/
structure Client.SameWork (c c' : Client) : Prop where
  writeBuf : c'.writeBuf = c.writeBuf
  readBuf : c'.readBuf = c.readBuf
  messageHandlers : c'.messageHandlers = c.messageHandlers
  nextPacketId : c'.nextPacketId = c.nextPacketId
  isPingOutstanding : c'.isPingOutstanding = c.isPingOutstanding

/-- A client whose holder is in a message handler is left alone, and a claim that was
refused is not rolled back with effect. -/
structure World.Waits (w w' : World) : Prop where
  claims : ∀ new, w' = w.granted .claim .connectedWaitForCbReturn new → w.Holds
  rollsBack : ∀ expected new, w' ≠ w.granted .rollback expected new

/-- What a thread that does not hold the client can do to it with its next step: it may
claim an idle client, and leaves the state alone otherwise. -/
structure World.Defers (w w' : World) : Prop where
  work : w.client.SameWork w'.client
  kept : ¬ w'.Holds → w'.client.clientState = w.client.clientState
  claimed : w'.Holds → w.client.clientState = .connectedIdle

namespace Exclusion

/-- No reconnect is prepared, and none will be. -/
structure Settled (c : Client) : Prop where
  isAutoReconnectEnabled : c.isAutoReconnectEnabled = false
  clientState : c.clientState ≠ .pendingReconnect

/-- What a step of a thread does to the client, as the other threads see it. -/
structure Respects (s t : World) : Prop where
  settled : Settled s.client → Settled t.client
  defers : ¬ s.Holds → s.Defers t
  busy : t.Holds → t.client.clientState ≠ .connectedIdle
  released : s.Holds → ¬ t.Holds → t.client.clientState = .connectedIdle ∨
    t.client.clientState = .disconnectedError

/-- What a thread can rely on: the state of a client that it holds stays as it is. -/
structure Relies (s t : World) : Prop where
  messages : t.messages = s.messages
  trace : t.trace = s.trace
  settled : Settled s.client → Settled t.client
  clientState : s.Holds → t.client.clientState = s.client.clientState

def discipline : Discipline World Answer where
  pre q w := q ≠ .application → w.Holds
  allow q _ a := q.keepsConnection a
  may := World.Waits
  guar := Respects
  rely := Relies
  halts _ := True

/-- The thread holds the client. -/
structure Held (w : World) : Prop where
  holds : w.Holds
  busy : w.client.clientState ≠ .connectedIdle
  settled : Settled w.client

/-- The thread does not hold the client. -/
structure Free (w : World) : Prop where
  claims : w.trace.claims = 0
  settled : Settled w.client

/-- The claims are the same. -/
def Same (s t : World) : Prop := t.trace.claims = s.trace.claims

/-- The claims and the client state are the same. -/
def Steady (s t : World) : Prop := Same s t ∧ t.client.clientState = s.client.clientState

variable {α β : Type} {s t u w : World}

theorem Relies.refl (s : World) : Relies s s := ⟨rfl, rfl, id, fun _ => rfl⟩

/-- Other threads neither give this thread a claim nor take one from it. -/
theorem Relies.holds_iff (h : Relies s t) : t.Holds ↔ s.Holds := by
  rw [World.Holds, h.trace, World.Holds]

theorem Relies.trans (h : Relies s t) (h' : Relies t u) : Relies s u where
  messages := h'.messages.trans h.messages
  trace := h'.trace.trans h.trace
  settled hs := h'.settled (h.settled hs)
  clientState hs := (h'.clientState (h.holds_iff.mpr hs)).trans (h.clientState hs)

/-- What the other threads do leaves this thread's record of its claims alone. -/
theorem Relies.same (h : Relies s t) : Same s t := congrArg Trace.claims h.trace

/-- So the client is as it was whenever the holder looks again. -/
theorem Held.steady (h : Held s) (hrely : Relies s t) : Steady s t :=
  ⟨hrely.same, hrely.clientState h.holds⟩

/-- A client that is held stays held, whatever the other threads do. -/
theorem Held.of_relies (h : Held s) (hrely : Relies s t) : Held t where
  holds := hrely.holds_iff.mpr h.holds
  busy := by
    rw [hrely.clientState h.holds]
    exact h.busy
  settled := hrely.settled h.settled

/-- A thread that does not hold the client has no claim on record. -/
theorem Free.not_holds (h : Free s) : ¬ s.Holds := Nat.not_lt.mpr (Nat.le_of_eq h.claims)

/-- Other threads do not hand the client over. -/
theorem Free.of_relies (h : Free s) (hrely : Relies s t) : Free t :=
  ⟨hrely.same.trans h.claims, hrely.settled h.settled⟩

theorem Same.refl (s : World) : Same s s := rfl

theorem Same.trans (h : Same s t) (h' : Same t u) : Same s u := Eq.trans h' h

/-- As many claims are on record where nothing has changed. -/
theorem Same.claims (h : Same s t) {n : Nat} (hs : s.trace.claims = n) : t.trace.claims = n :=
  Eq.trans h hs

theorem Steady.refl (s : World) : Steady s s := ⟨rfl, rfl⟩

theorem Steady.trans (h : Steady s t) (h' : Steady t u) : Steady s u :=
  ⟨h.1.trans h'.1, h'.2.trans h.2⟩

/-- A step by which the client stays held. -/
theorem Held.respects (hs : Held s) (ht : Held t) : Respects s t where
  settled _ := ht.settled
  defers hno := absurd hs.holds hno
  busy _ := ht.busy
  released _ hno := absurd ht.holds hno

/-- A step by which the client is not claimed. -/
theorem Free.respects (hs : Free s) (ht : Free t) (hwork : s.client.SameWork t.client)
    (hstate : t.client.clientState = s.client.clientState) : Respects s t where
  settled _ := ht.settled
  defers _ := ⟨hwork, fun _ => hstate, fun hholds => absurd hholds ht.not_holds⟩
  busy hholds := absurd hholds ht.not_holds
  released hholds := absurd hholds hs.not_holds

theorem sameWork_refl (c : Client) : c.SameWork c := ⟨rfl, rfl, rfl, rfl, rfl⟩

/-- A step that leaves the claims and the state alone. -/
theorem Held.of_steady (h : Held s) (hsame : Steady s t)
    (hauto : t.client.isAutoReconnectEnabled = false) : Held t where
  holds := by
    rw [World.Holds, hsame.1]
    exact h.holds
  busy := by
    rw [hsame.2]
    exact h.busy
  settled := ⟨hauto, by rw [hsame.2]; exact h.settled.clientState⟩

/-! ## The record of claims -/

/-- Input and output claim nothing. -/
theorem claims_cons_of_isIo {e : Event} (h : e.isIo = true) (t : Trace) :
    Trace.claims (e :: t) = t.claims := by
  cases e <;> first | rfl | cases h

/-- Nor do several such events. -/
theorem claims_append_of_isIo {ev : List Event} (h : ∀ e ∈ ev, e.isIo = true) (t : Trace) :
    Trace.claims (ev ++ t) = t.claims := by
  induction ev with
  | nil => rfl
  | cons e ev ih =>
      rw [List.cons_append, claims_cons_of_isIo (h e List.mem_cons_self)]
      exact ih fun e' he' => h e' (List.mem_cons_of_mem e he')

/-- Such a step leaves a client that is held as it was. -/
theorem steady_of_io (h : Io s t) : Steady s t := by
  obtain ⟨ev, htrace, hev⟩ := h.trace
  refine ⟨?_, h.clientState⟩
  rw [Same, htrace]
  exact claims_append_of_isIo hev _

/-! ## While the client is held -/

/-- The program leaves the claims and the client state as they are. -/
abbrev Keeps (p : M α) : Prop := Preserves discipline Held Steady p

/-- The program leaves the claims as they are. -/
abbrev Holding (p : M α) : Prop := Preserves discipline Held Same p

/-- A program that keeps the client keeps hold of it. -/
theorem Keeps.holding {p : M α} (h : Keeps p) : Holding p :=
  fun w hw => wp_mono (fun _ _ ht => ⟨ht.1, ht.2.1⟩) (h w hw)

/-- Programs that keep the client can be put one after the other. -/
theorem Keeps.bind {p : M α} {g : α → M β} (hp : Keeps p) (hg : ∀ a, Keeps (g a)) :
    Keeps (p >>= g) :=
  Preserves.bind (fun _ _ _ h h' => h.trans h') hp hg

/-- So can programs that keep hold of it. -/
theorem Holding.bind {p : M α} {g : α → M β} (hp : Holding p) (hg : ∀ a, Holding (g a)) :
    Holding (p >>= g) :=
  Preserves.bind (R := Same) (fun _ _ _ h h' => h.trans h') hp hg

theorem holding_pure (a : α) : Holding (pure a : M α) := preserves_pure Same.refl a

/-- Input and output keep the client, however the other threads interleave. -/
theorem keeps_io {p : M α} (hp : IsIo p) : Keeps p := by
  intro w hw
  apply hp.wp (I := fun t => Held t ∧ Steady w t) _ _ _ (fun _ _ => trivial) ⟨hw, .refl w⟩
  · exact fun q t ht _ _ => ht.1.holds
  · intro t u ht hio _
    have hu := ht.1.of_steady (steady_of_io hio)
      (hio.isAutoReconnectEnabled.trans ht.1.settled.isAutoReconnectEnabled)
    exact ⟨ht.1.respects hu, hu, ht.2.trans (steady_of_io hio)⟩
  · exact fun t u ht hu => ⟨ht.1.of_relies hu, ht.2.trans (ht.1.steady hu)⟩

/-- So do plain steps. -/
theorem sequences : Sequences fun _ p => Keeps p where
  plain hp := keeps_io hp.isIo
  bind hp hg := Keeps.bind hp hg

/-- A step that leaves the claims and the state alone. -/
theorem keeps_act {v : World → α} {f : World → World} (hf : ∀ w, Steady w (f w))
    (hauto : ∀ w, (f w).client.isAutoReconnectEnabled = w.client.isAutoReconnectEnabled) :
    Keeps (Program.atomically v f) := by
  intro w hw _
  have hnext := hw.of_steady (hf w) ((hauto w).trans hw.settled.isAutoReconnectEnabled)
  exact ⟨hw.respects hnext, fun t ht =>
    ⟨hnext.of_relies ht, (hf w).trans (hnext.steady ht)⟩⟩

/-- A step that changes neither state nor settings keeps the client. -/
theorem keeps_modify {f : World → World} (hf : ∀ w, Steady w (f w))
    (hauto : ∀ w, (f w).client.isAutoReconnectEnabled = w.client.isAutoReconnectEnabled) :
    Keeps (Program.modify f) := keeps_act hf hauto

theorem keeps_modified {f : World → World} (hf : ∀ w, Steady w (f w))
    (hauto : ∀ w, (f w).client.isAutoReconnectEnabled = w.client.isAutoReconnectEnabled) (a : α) :
    Keeps (Program.modify f >>= fun _ => pure a) :=
  (keeps_modify hf hauto).bind fun _ => sequences.pure a

/-- The rule for a part that keeps the claims and the state, after others that do. -/
theorem wp_bind_keeps {p : M α} {g : α → M β} {Φ : β → World → Prop} (hp : Keeps p) (ht : Held t)
    (hwt : Steady w t) (hg : ∀ a u, Held u → Steady w u → wp discipline (g a) Φ u) :
    wp discipline (p >>= g) Φ t := by
  rw [wp_bind]
  exact wp_mono (fun a u hu => hg a u hu.1 (hwt.trans hu.2)) (hp t ht)

theorem keeps_emit {e : Event} (he : ∀ t : Trace, Trace.claims (e :: t) = t.claims) :
    Keeps (emit e) :=
  keeps_modify (fun w => ⟨he w.trace, rfl⟩) fun _ => rfl

theorem keeps_query {q : Query} : Keeps (Program.query (A := Answer) q) :=
  fun _ hw => ⟨fun _ => hw.holds, fun _ _ _ ht => ⟨hw.of_relies ht, hw.steady ht⟩⟩

/-- Such a step may stand in front of what needs the client held. -/
theorem wp_bind_modifyClient {f : Client → Client} {g : Unit → M β} {Φ : β → World → Prop}
    (hstate : ∀ c, (f c).clientState = c.clientState)
    (hauto : ∀ c, (f c).isAutoReconnectEnabled = c.isAutoReconnectEnabled) (ht : Held t)
    (hwt : Steady w t) (hg : ∀ u, Held u → Steady w u → wp discipline (g ()) Φ u) :
    wp discipline (modifyClient f >>= g) Φ t :=
  wp_bind_keeps (keeps_modify (fun w => ⟨rfl, hstate w.client⟩) fun w => hauto w.client) ht hwt
    fun _ => hg

/-- A frame changes nothing about who holds the client. -/
theorem keeps_framed {f : Frame} {body : M IotError} (hbody : Keeps body) :
    Keeps (framed f body) := by
  refine Keeps.bind (keeps_emit fun _ => rfl) fun _ => Keeps.bind hbody fun rc => ?_
  exact Keeps.bind (keeps_emit fun _ => rfl) fun _ => sequences.pure rc

/-- Handling packets changes nothing about who holds the client. -/
theorem dispatches : Dispatches (fun _ => True) fun _ p => Keeps p where
  toSequences := sequences
  delivered f hf := by
    have hlog (w : World) : Steady w (f w) ∧
        (f w).client.isAutoReconnectEnabled = w.client.isAutoReconnectEnabled := by
      obtain ⟨name, topic, payload, data, heq⟩ := hf w
      rw [heq]
      exact ⟨⟨rfl, rfl⟩, rfl⟩
    exact keeps_modify (fun w => (hlog w).1) fun w => (hlog w).2
  io hp := keeps_io hp.isIo
  handled hdeliver timer := sequences.internalHandlePublish
    (fun _ _ _ => keeps_io (isIo_internalSendPacket _ _ _))
    (fun _ => keeps_modify (fun _ => ⟨rfl, rfl⟩) fun _ => rfl)
    (fun _ => keeps_act (fun _ => ⟨rfl, rfl⟩) fun _ => rfl) hdeliver timer
  framed _ hbody := keeps_framed hbody

/-- A read of what does not change while the client is held. -/
theorem wp_read {v : World → α} {Φ : α → World → Prop} (hw : Held w)
    (hΦ : ∀ t, Relies w t → Φ (v w) t) : wp discipline (Program.atomically v id) Φ w :=
  fun _ => ⟨hw.respects hw, hΦ⟩

/-- A change of the state by the thread that holds the client and goes on holding it. -/
theorem wp_setClientState_held (change : StateChange) {expected new : ClientState} (hw : Held w)
    (hstate : w.client.clientState = expected) (hbusy : new ≠ .connectedIdle)
    (hpending : new ≠ .pendingReconnect)
    (hheld : 0 < Trace.claims (.setState change expected new true :: w.trace)) :
    wp discipline (setClientState change expected new) (fun rc t => rc = .success ∧ Held t ∧
      t.trace = .setState change expected new true :: w.trace ∧ t.client.clientState = new) w := by
  intro _
  simp only [if_pos hstate]
  have hgranted : Held (w.granted change expected new) :=
    ⟨hheld, hbusy, hw.settled.isAutoReconnectEnabled, hpending⟩
  exact ⟨hw.respects hgranted, fun t ht => ⟨rfl, hgranted.of_relies ht, ht.trace,
    ht.clientState hgranted.holds⟩⟩

/-- The holder may assign the state, but not to idle, which would give the client away. -/
theorem holding_putClientState {new : ClientState} (hbusy : new ≠ .connectedIdle)
    (hpending : new ≠ .pendingReconnect) :
    Preserves discipline Held (fun s t => Same s t ∧ t.client.clientState = new)
      (putClientState new) := by
  intro w hw _
  have hput : Held (w.put new) :=
    ⟨hw.holds, hbusy, hw.settled.isAutoReconnectEnabled, hpending⟩
  exact ⟨hw.respects hput, fun t ht => ⟨hput.of_relies ht, ht.same, ht.clientState hput.holds⟩⟩

/-- A delivery puts the state back that it has found, so the client stays held. -/
theorem keeps_internalDeliverMessage {fuel : Nat} {call : Call → M IotError}
    (happ : Keeps (application fuel call)) (topicOff : Nat) (topicNameLen : UInt16) :
    Keeps (internalDeliverMessage fuel call topicOff topicNameLen) := by
  intro w hw
  unfold internalDeliverMessage
  rw [wp_bind]
  apply wp_read hw
  intro t ht
  have htheld := hw.of_relies ht
  have hsteady := hw.steady ht
  rw [wp_bind]
  apply wp_mono _ (wp_setClientState_held .other htheld hsteady.2 (by decide) (by decide)
    htheld.holds)
  rintro _ u ⟨-, hu, hutrace, hustate⟩
  rw [wp_bind]
  apply wp_mono _ (dispatches.deliverMessageLoop (fun _ => trivial) happ _ _ _ u hu)
  rintro _ v ⟨hv, hvsame, hvstate⟩
  apply wp_mono _ (wp_setClientState_held .other hv (hvstate.trans hustate) hw.busy
    hw.settled.clientState hv.holds)
  rintro _ x ⟨-, hx, hxtrace, hxstate⟩
  refine ⟨hx, ?_, hxstate⟩
  have hx' : x.trace.claims = v.trace.claims := congrArg Trace.claims hxtrace |>.trans rfl
  have hu' : u.trace.claims = t.trace.claims := congrArg Trace.claims hutrace |>.trans rfl
  calc x.trace.claims = v.trace.claims := hx'
    _ = u.trace.claims := hvsame
    _ = t.trace.claims := hu'
    _ = w.trace.claims := hsteady.1

/-! ## Codes -/

/-- The program returns no verdict on the connection. -/
abbrev Plain (p : M α) (P : α → Prop) : Prop := p.AlwaysIf Query.keepsConnection P

/-- A failed read is no verdict on the connection. -/
theorem plain_netReadToBuffer (site : ReadSite) (off n : Nat) :
    Plain (netReadToBuffer site off n) fun rc => rc.isVerdict = false :=
  fun _ hr _ => hr

theorem plain_netReadByte (site : ReadSite) :
    Plain (netReadByte site) Outcomes.FailsPlainly := by
  intro r hr _
  simp only [pure_eq]
  split
  · rintro rc ⟨⟩
  · exact Outcomes.failsPlainly_error hr

/-- Nor is a length field that cannot be read. -/
theorem plain_decodePacketRemainingLen (fuel : Nat) :
    Plain (decodePacketRemainingLen fuel) Outcomes.FailsPlainly := by
  apply AlwaysIf.loop
  intro p
  apply AlwaysIf.ite
  · exact fun _ => Outcomes.failsPlainly_error rfl
  · intro _
    apply (plain_netReadByte .length).bind
    intro r hr
    cases r with
    | error rc => exact Outcomes.failsPlainly_error (hr rc rfl)
    | ok encodedByte =>
        apply AlwaysIf.ite
        · rintro _ rc ⟨⟩
        · exact fun _ => trivial

/-- Nor is a packet that cannot be read or does not fit. -/
theorem plain_readPacketOfLength (fuel remLen : Nat) :
    Plain (readPacketOfLength fuel remLen) Outcomes.FailsPlainly := by
  apply alwaysIf_bind
  intro c
  apply AlwaysIf.ite
  · exact fun _ => alwaysIf_bind fun _ => Outcomes.failsPlainly_error rfl
  · intro _
    refine alwaysIf_bind fun _ => alwaysIf_bind fun rc => AlwaysIf.ite (fun _ => ?_) fun _ => ?_
    · exact alwaysIf_bind fun _ => alwaysIf_bind fun _ => by rintro rc ⟨⟩
    · exact Outcomes.failsPlainly_error rfl

/-- So no read says that the client has been disconnected or reconnected. -/
theorem plain_internalReadPacket (fuel : Nat) :
    Plain (internalReadPacket fuel) Outcomes.FailsPlainly := by
  apply alwaysIf_bind
  intro c
  apply alwaysIf_bind
  intro _
  apply (plain_netReadToBuffer .header 0 1).bind
  intro rc hrc
  apply AlwaysIf.ite
  · exact fun _ => Outcomes.failsPlainly_error rfl
  · intro _
    apply AlwaysIf.ite
    · exact fun _ => Outcomes.failsPlainly_error hrc
    · intro _
      apply (plain_decodePacketRemainingLen fuel).bind
      intro r hr
      cases r with
      | error rc => exact Outcomes.failsPlainly_error (hr rc rfl)
      | ok remLen => exact plain_readPacketOfLength fuel remLen

/-- Nor does dispatching what was read. -/
theorem plain_internalCycleRead (fuel : Nat) (call : Call → M IotError) (timer : TimerName) :
    Plain (internalCycleRead fuel call timer) fun r => r.1.isVerdict = false := by
  apply (sendings_lockMutex .tlsRead).alwaysIf.bind
  intro threadRc hlock
  apply AlwaysIf.ite
  · exact fun _ => Outcomes.isVerdict_of_isSending hlock
  · intro _
    apply (plain_internalReadPacket fuel).bind
    intro r hr
    apply (sendings_unlockMutex .tlsRead).alwaysIf.bind
    intro threadRc hunlock
    have hunlock' := Outcomes.isVerdict_of_isSending hunlock
    split
    next =>
      change IotError.isVerdict (Prod.fst _) = false
      split
      · exact hunlock'
      · rfl
    next rc _ => exact hr rc rfl
    next type =>
      apply AlwaysIf.ite
      · exact fun _ => hunlock'
      · exact fun _ => (Outcomes.plain_dispatchPacket timer type).alwaysIf.bind fun _ hrc => hrc

/-! ## Calls made while the client is held -/

section Calls

variable {fuel : Nat} {call : Call → M IotError}

/-- Application code keeps the client as long as it leaves the connection alone. -/
theorem keeps_application (hcall : ∀ c, c.keepsConnection = true → Keeps (call c)) :
    Keeps (application fuel call) := by
  apply sequences.loop
  intro _ w hw
  refine ⟨fun hno => absurd rfl hno, fun next hnext t ht => ?_⟩
  have hnext' : ∀ c, next = some c → c.keepsConnection = true := hnext
  cases next with
  | none => exact ⟨hw.of_relies ht, hw.steady ht⟩
  | some c =>
      change wp discipline (call c >>= fun _ => pure (Sum.inl ())) _ t
      rw [wp_bind]
      apply wp_mono _ (hcall c (hnext' c rfl) t (hw.of_relies ht))
      exact fun _ u hu => ⟨hu.1, (hw.steady ht).trans hu.2⟩

/-- An operation in a handler claims the client for itself and gives it back. -/
theorem keeps_exclusively {inProgress : ClientState} {body : M IotError}
    {onRefused : ClientState → IotError → M IotError} (hbody : Keeps body)
    (hbusy : inProgress ≠ .connectedIdle) (hpending : inProgress ≠ .pendingReconnect) :
    Keeps (exclusively inProgress body onRefused) := by
  intro w hw
  unfold exclusively
  rw [wp_bind]
  apply wp_read hw
  intro t ht
  have htheld := hw.of_relies ht
  split
  next => exact ⟨htheld, hw.steady ht⟩
  next =>
    rw [wp_bind]
    apply wp_read htheld
    intro u hu
    have huheld := htheld.of_relies hu
    have hwu := (hw.steady ht).trans (htheld.steady hu)
    split
    next => exact ⟨huheld, hwu⟩
    next =>
      rw [wp_bind]
      apply wp_mono _ (wp_setClientState_held .claim huheld (htheld.steady hu).2 hbusy hpending
        (Nat.succ_pos _))
      rintro rc x ⟨rfl, hx, hxtrace, hxstate⟩
      rw [if_neg (not_not.mpr rfl), wp_bind]
      apply wp_mono _ (hbody x hx)
      rintro bodyRc y ⟨hy, hysame, hystate⟩
      -- one claim more than before, which the release takes back
      have hclaims : y.trace.claims = u.trace.claims + 1 := by
        rw [hysame, hxtrace]
        rfl
      rw [wp_bind]
      apply wp_mono _ (wp_setClientState_held .release hy (hystate.trans hxstate) htheld.busy
        htheld.settled.clientState (by
          change 0 < y.trace.claims - 1
          rw [hclaims]
          exact huheld.holds))
      rintro rc z ⟨-, hz, hztrace, hzstate⟩
      refine ⟨hz, ?_, hzstate.trans (hw.steady ht).2⟩
      calc z.trace.claims = y.trace.claims - 1 := by rw [hztrace]; rfl
        _ = u.trace.claims := by rw [hclaims]; rfl
        _ = w.trace.claims := hwu.1

variable (hcall : ∀ c, c.keepsConnection = true → Keeps (call c))

include hcall

/-- Reading a packet keeps the client, also where handlers make calls. -/
theorem keeps_internalCycleRead (timer : TimerName) : Keeps (internalCycleRead fuel call timer) :=
  dispatches.internalCycleRead (keeps_internalDeliverMessage (keeps_application hcall)) timer

/-- So does what an operation consists of. -/
theorem keeps_composes : Composes fuel call (Keeps · : M IotError → Prop) :=
  dispatches.composes fun _ =>
    dispatches.internalWaitForRead (keeps_internalCycleRead hcall) trivial

omit hcall in
/-- A client that is held cannot be resubscribed. -/
theorem keeps_resubscribe : Keeps (resubscribe fuel call) := by
  intro w hw
  unfold resubscribe
  rw [wp_bind]
  apply wp_read hw
  intro t ht
  have htheld := hw.of_relies ht
  split
  next => exact ⟨htheld, hw.steady ht⟩
  next =>
    rw [wp_bind]
    apply wp_read htheld
    intro u hu
    rw [if_pos htheld.busy]
    exact ⟨htheld.of_relies hu, (hw.steady ht).trans (htheld.steady hu)⟩

omit hcall in
/-- A client that is held cannot be yielded to. -/
theorem keeps_yield (timeoutMs : UInt32) : Keeps (yield fuel call timeoutMs) := by
  apply Sequences.ite (S := fun _ p => Keeps p)
  · exact fun _ => sequences.pure _
  · intro _ w hw
    rw [wp_bind]
    apply wp_read hw
    intro t ht
    have htheld := hw.of_relies ht
    split
    next => exact ⟨htheld, hw.steady ht⟩
    next =>
      rw [if_neg hw.settled.clientState, wp_bind]
      apply wp_read htheld
      intro u hu
      have hkept := (hw.steady ht).trans (htheld.steady hu)
      split
      next => exact ⟨htheld.of_relies hu, hkept⟩
      next =>
        rw [if_pos hw.busy]
        exact ⟨htheld.of_relies hu, hkept⟩

/-- A call made by the thread that holds the client. -/
theorem keeps_perform {c : Call} (hc : c.keepsConnection = true) : Keeps (perform fuel call c) := by
  have hcomposes : Composes fuel call (Keeps · : M IotError → Prop) := keeps_composes hcall
  cases c with
  | publish topicName topicNameLen params =>
      change Keeps (publish fuel call topicName topicNameLen params)
      unfold publish
      split
      · apply Sequences.ite (S := fun _ p => Keeps p)
        · exact fun _ => sequences.pure _
        · exact fun _ => keeps_exclusively (hcomposes.internalPublish _ _ _) (by decide) (by decide)
      · exact sequences.pure _
  | subscribe topicName topicNameLen qos handler data =>
      change Keeps (subscribe fuel call topicName topicNameLen qos handler data)
      unfold subscribe
      split
      · refine keeps_exclusively (hcomposes.internalSubscribe _ _ _ _ _ ?_) (by decide) (by decide)
        intro slot len handler
        apply keeps_framed
        apply hcomposes.requestSubscription
        refine keeps_modified ?_ ?_ _
        · exact fun _ => ⟨rfl, rfl⟩
        · exact fun _ => rfl
      · exact sequences.pure _
  | unsubscribe topicFilter topicFilterLen =>
      change Keeps (unsubscribe fuel call topicFilter topicFilterLen)
      unfold unsubscribe
      split
      · exact sequences.pure _
      · refine keeps_exclusively (hcomposes.internalUnsubscribe _ _ ?_) (by decide) (by decide)
        refine keeps_modified ?_ ?_ _
        · exact fun _ => ⟨rfl, rfl⟩
        · exact fun _ => rfl
  | resubscribe => exact keeps_resubscribe
  | yield timeoutMs => exact keeps_yield timeoutMs
  | autoreconnectSetStatus newStatus =>
      cases newStatus with
      | true => cases hc
      | false =>
          intro w hw _
          have hnext : Held (w.onClient fun c => { c with isAutoReconnectEnabled := false }) :=
            hw.of_steady ⟨rfl, rfl⟩ rfl
          exact ⟨hw.respects hnext, fun t ht => ⟨hnext.of_relies ht, hnext.steady ht⟩⟩
  | setDisconnectHandler handler =>
      cases handler with
      | none => exact sequences.pure _
      | some handler =>
          refine keeps_modified ?_ ?_ _
          · exact fun _ => ⟨rfl, rfl⟩
          · exact fun _ => rfl
  | setConnectParams params =>
      cases params with
      | none => exact sequences.pure _
      | some params =>
          refine keeps_modified ?_ ?_ _
          · exact fun _ => ⟨rfl, rfl⟩
          · exact fun _ => rfl
  | resetNetworkDisconnectedCount =>
      refine keeps_modified ?_ ?_ _
      · exact fun _ => ⟨rfl, rfl⟩
      · exact fun _ => rfl
  | init | connect | disconnect | attemptReconnect => cases hc

end Calls

end Exclusion

end MqttClient
