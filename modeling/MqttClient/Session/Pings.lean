import MqttClient.Client.Traversal
import MqttClient.Session.Records

/-! # Pings and their answers

A ping is outstanding from the PINGREQ on until a PINGRESP is read or a connect
has succeeded. The client keeps a flag for it, which is set behind sending and
reset behind reading. In between nothing happens but the release of the mutex
of the read.
-/

namespace MqttClient

open Effect Program

def pingreq : List UInt8 := [0xC0, 0]

namespace Trace

/-- A PINGREQ was sent since the last connect that succeeded, and no PINGRESP was read after it. -/
def pingOutstanding : Trace → Bool
  | [] => false
  | .sent packet :: t => decide (packet = pingreq) || pingOutstanding t
  | .received packetType :: t => decide (packetType ≠ .pingresp) && pingOutstanding t
  | .leave .connecting .success :: _ => false
  | _ :: t => pingOutstanding t

/-- Every PINGREQ was sent while none was outstanding. -/
def PingsSingly (trace : Trace) : Prop :=
  ∀ newer older, trace = newer ++ .sent pingreq :: older → pingOutstanding older = false

end Trace

/-- Events that bear on whether a ping is outstanding. -/
def Event.isPing : Event → Bool
  | .sent packet => packet = pingreq
  | .received packetType => packetType = .pingresp
  | .leave .connecting .success => true
  | _ => false

/-- A frame that is left has to do with pings only if it is a connect that has succeeded. -/
theorem Event.isPing_leave {f : Frame} {rc : IotError} (h : f = .connecting → rc ≠ .success) :
    (Event.leave f rc).isPing = false := by
  cases f with
  | connecting =>
      cases rc with
      | success => exact absurd rfl (h rfl)
      | _ => rfl
  | _ => rfl

/-- Writing to the network sends no ping yet. -/
theorem Event.isPing_of_isWriting {e : Event} (h : e.isWriting = true) : e.isPing = false := by
  cases e <;> first | rfl | cases h

/-- Fetching bytes receives no answer yet. -/
theorem Event.isPing_of_isFetching {e : Event} (h : e.isFetching = true) : e.isPing = false := by
  cases e <;> first | rfl | cases h

/-- Events that have nothing to do with pings leave a ping as outstanding as it was. -/
theorem Trace.pingOutstanding_cons {e : Event} (h : e.isPing = false) (t : Trace) :
    pingOutstanding (e :: t) = pingOutstanding t := by
  cases e with
  | sent packet =>
      have hne : ¬packet = pingreq := of_decide_eq_false h
      rw [pingOutstanding, decide_eq_false hne, Bool.false_or]
  | received packetType =>
      have hne : packetType ≠ .pingresp := of_decide_eq_false h
      rw [pingOutstanding, decide_eq_true hne, Bool.true_and]
  | leave f rc =>
      cases f with
      | connecting =>
          cases rc with
          | success => cases h
          | _ => rfl
      | _ => rfl
  | _ => rfl

/-- A PINGREQ may be added while no ping is outstanding, and anything else at any time. -/
theorem Trace.PingsSingly.cons {e : Event} {t : Trace} (h : PingsSingly t)
    (he : e = .sent pingreq → t.pingOutstanding = false) : PingsSingly (e :: t) := by
  intro newer older heq
  cases newer with
  | nil =>
      cases heq
      exact he rfl
  | cons e' newer => exact h newer older (List.cons.inj heq).2

/-- The flag says whether a ping is outstanding, and there is never more than one. -/
structure Accounted (w : World) : Prop where
  flag : w.client.isPingOutstanding = w.trace.pingOutstanding
  singly : w.trace.PingsSingly

/-- A step that has nothing to do with pings. -/
structure Unpinged (s t : World) : Prop where
  flag : t.client.isPingOutstanding = s.client.isPingOutstanding
  trace : Adds (fun e => e.isPing = false) s t

namespace Unpinged

variable {s t u : World}

theorem refl (s : World) : Unpinged s s := ⟨rfl, adds_of_eq rfl⟩

theorem trans (h : Unpinged s t) (h' : Unpinged t u) : Unpinged s u :=
  ⟨h'.flag.trans h.flag, h.trace.trans h'.trace⟩

theorem log {e : Event} (w : World) (h : e.isPing = false) : Unpinged w (w.log e) :=
  ⟨rfl, adds_one rfl h⟩

theorem granted (w : World) (change : StateChange) (expected new : ClientState) :
    Unpinged w (w.granted change expected new) := ⟨rfl, adds_one rfl rfl⟩

theorem refused (w : World) (change : StateChange) (expected new : ClientState) :
    Unpinged w (w.refused change expected new) := .log w rfl

/-- Over steps that have nothing to do with pings the same ping is outstanding. -/
theorem outstanding_eq (h : Unpinged s t) : t.trace.pingOutstanding = s.trace.pingOutstanding := by
  obtain ⟨events, htrace, hevents⟩ := h.trace
  rw [htrace]
  clear htrace
  induction events with
  | nil => rfl
  | cons e events ih =>
      rw [List.cons_append, Trace.pingOutstanding_cons (hevents e List.mem_cons_self)]
      exact ih fun e' he' => hevents e' (List.mem_cons_of_mem e he')

/-- Such steps send no PINGREQ. -/
theorem singly (h : Unpinged s t) (hs : s.trace.PingsSingly) : t.trace.PingsSingly := by
  obtain ⟨events, htrace, hevents⟩ := h.trace
  rw [htrace]
  clear htrace
  induction events with
  | nil => exact hs
  | cons e events ih =>
      apply (ih fun e' he' => hevents e' (List.mem_cons_of_mem e he')).cons
      rintro rfl
      have hping := hevents _ List.mem_cons_self
      cases hping

/-- Such steps keep the flag and the trace in agreement. -/
theorem accounted (h : Unpinged s t) (hs : Accounted s) : Accounted t :=
  ⟨(h.flag.trans hs.flag).trans h.outstanding_eq.symm, h.singly hs.singly⟩

theorem of_writes (h : Writes s t) : Unpinged s t :=
  ⟨congrArg Client.isPingOutstanding h.client, h.trace.mono fun _ => Event.isPing_of_isWriting⟩

theorem of_fetches (h : Fetches s t) : Unpinged s t :=
  ⟨by rw [h.client], h.trace.mono fun _ => Event.isPing_of_isFetching⟩

end Unpinged

/-! ## Packets other than PINGREQ -/

/-- The packet does not begin like a PINGREQ. -/
def BeginsOtherwise (packet : List UInt8) : Prop :=
  ∃ header rest, packet = header :: rest ∧ header ≠ 0xC0

/-- The first byte of a packet tells a PINGREQ from every other packet. -/
theorem header_ne_of_initHeader {messageType : MessageType} {qos : QoS}
    {dup retained header : UInt8}
    (h : initHeader messageType qos dup retained = .ok header) (hother : messageType ≠ .pingreq) :
    header ≠ 0xC0 := by
  cases messageType with
  | unknown => cases h
  | pingreq => exact absurd rfl hother
  | _ => cases h; split <;> split <;> split <;> decide

/-- A packet begins with the header that was made for its type. -/
theorem beginsOtherwise_of_header {messageType : MessageType} {qos : QoS} {dup retained : UInt8}
    {packetOf : UInt8 → List UInt8} {packet : List UInt8}
    (h : (do let header ← initHeader messageType qos dup retained; return packetOf header) =
      Except.ok packet) (hpacket : ∀ header, ∃ rest, packetOf header = header :: rest)
    (hother : messageType ≠ .pingreq) : BeginsOtherwise packet := by
  cases hheader : initHeader messageType qos dup retained with
  | error rc =>
      rw [hheader] at h
      cases h
  | ok header =>
      rw [hheader] at h
      cases h
      obtain ⟨rest, hrest⟩ := hpacket header
      exact ⟨header, rest, hrest, header_ne_of_initHeader hheader hother⟩

/-- A serializer that succeeds has not refused. -/
theorem ok_of_ite {c : Prop} [Decidable c] {rc : IotError} {r : Except IotError (List UInt8)}
    {packet : List UInt8} (h : (if c then .error rc else r) = .ok packet) : r = .ok packet := by
  split at h
  next => cases h
  next => exact h

section Packets

variable {txBufLen : Nat} {packet : List UInt8}

/-- A CONNECT does not begin like a PINGREQ. -/
theorem beginsOtherwise_serializeConnect {params : ConnectParams}
    (h : serializeConnect txBufLen params = .ok packet) : BeginsOtherwise packet :=
  beginsOtherwise_of_header (ok_of_ite (ok_of_ite (ok_of_ite h))) (fun _ => ⟨_, rfl⟩) (by decide)

/-- Nor does a PUBLISH, whatever its flags. -/
theorem beginsOtherwise_serializePublish {dup : UInt8} {qos : QoS} {retained : UInt8}
    {packetId : UInt16} {topicName : List UInt8} {topicNameLen : UInt16}
    {payload : Option (List UInt8)}
    {payloadLen : Nat}
    (h : serializePublish txBufLen dup qos retained packetId topicName topicNameLen
      payload payloadLen = .ok packet) : BeginsOtherwise packet := by
  cases payload with
  | none => cases h
  | some payload => exact beginsOtherwise_of_header (ok_of_ite h) (fun _ => ⟨_, rfl⟩) (by decide)

/-- Nor does an acknowledgement. -/
theorem beginsOtherwise_serializeAck {messageType : MessageType} {dup : UInt8} {packetId : UInt16}
    (h : serializeAck txBufLen messageType dup packetId = .ok packet)
    (hother : messageType ≠ .pingreq) : BeginsOtherwise packet :=
  beginsOtherwise_of_header (ok_of_ite h) (fun _ => ⟨_, rfl⟩) hother

/-- Of the packets without a body only PINGREQ begins so. -/
theorem beginsOtherwise_serializeZero {packetType : MessageType}
    (h : serializeZero txBufLen packetType = .ok packet) (hother : packetType ≠ .pingreq) :
    BeginsOtherwise packet :=
  beginsOtherwise_of_header (ok_of_ite h) (fun _ => ⟨_, rfl⟩) hother

theorem beginsOtherwise_serializeSubscribe {dup : UInt8} {packetId : UInt16}
    {filters : List FilterRequest}
    (h : serializeSubscribe txBufLen dup packetId filters = .ok packet) :
    BeginsOtherwise packet :=
  beginsOtherwise_of_header (ok_of_ite h) (fun _ => ⟨_, rfl⟩) (by decide)

theorem beginsOtherwise_serializeUnsubscribe {dup : UInt8} {packetId : UInt16}
    {filters : List (List UInt8 × UInt16)}
    (h : serializeUnsubscribe txBufLen dup packetId filters = .ok packet) :
      BeginsOtherwise packet :=
  beginsOtherwise_of_header (ok_of_ite h) (fun _ => ⟨_, rfl⟩) (by decide)

/-- A PINGREQ that could be serialized is these two bytes. -/
theorem eq_pingreq_of_serializeZero (h : serializeZero txBufLen .pingreq = .ok packet) :
    packet = pingreq := by
  unfold serializeZero at h
  split at h
  next => cases h
  next => cases h; rfl

end Packets

/-! ## Programs that account for pings -/

/-- The discipline in which PINGREQs are sent singly, and questions are asked only where pings are
accounted for, but for the release of the mutex behind a read. -/
abbrev pinging (allow : Policy) : Discipline World Answer :=
  solo (fun q s => q ≠ .unlock .tlsRead → Accounted s) allow fun _ t => t.trace.PingsSingly

/-- Pings are accounted for whenever the program asks a question, and when it returns. -/
def Accounts (allow : Policy) {α : Type} (p : M α) : Prop :=
  ∀ s, Accounted s → wp (pinging allow) p (fun _ t => Accounted t) s

/-- The program has nothing to do with pings. -/
abbrev NeverPings {α : Type} (p : M α) : Prop := p.Within (fun _ => True) Unpinged

/-- What changes nothing has nothing to do with pings. -/
theorem neverPings_of_idle {α : Type} {p : M α} (h : p.Within (fun q => q.isIo) (· = ·)) :
    NeverPings p := by
  apply h.mono (fun _ _ => trivial)
  rintro s t rfl
  exact .refl s

section Rules

variable {allow : Policy} {α β : Type}

theorem accounts_pure (a : α) : Accounts allow (pure a : M α) := fun _ hs => hs

theorem accounts_stop : Accounts allow (.stop : M α) := fun _ _ => trivial

/-- Programs that account for pings can be put one after the other. -/
theorem Accounts.bind {p : M α} {g : α → M β} (hp : Accounts allow p)
    (hg : ∀ a, Accounts allow (g a)) : Accounts allow (p >>= g) := by
  intro s hs
  rw [wp_bind]
  exact wp_mono (fun a t ht => hg a t ht) (hp s hs)

theorem Accounts.ite {c : Prop} [Decidable c] {p q : M α} (hp : Accounts allow p)
    (hq : Accounts allow q) : Accounts allow (if c then p else q) := by
  split
  · exact hp
  · exact hq

theorem Accounts.onSuccess (rc : IotError) {p : M IotError} (hp : Accounts allow p) :
    Accounts allow (onSuccess rc p) := .ite hp (accounts_pure rc)

/-- What has nothing to do with pings keeps to the discipline. -/
theorem wp_neverPings {p : M α} {s : World} (h : NeverPings p) (hs : Accounted s) :
    wp (pinging allow) p (fun _ t => Unpinged s t) s := by
  refine h.wp (fun _ _ ht _ _ => ht.accounted hs) ?_ ?_
    (fun _ _ => trivial) (.refl s)
  · exact fun t u ht hu _ => ⟨(ht.trans hu).singly hs.singly, ht.trans hu⟩
  · rintro t u ht rfl
    exact ht

/-- So it accounts for them. -/
theorem NeverPings.accounts {p : M α} (h : NeverPings p) : Accounts allow p := fun _ hs =>
  wp_mono (fun _ _ ht => ht.accounted hs) (wp_neverPings h hs)

theorem neverPings_modify {f : World → World} (h : ∀ w, Unpinged w (f w)) :
    NeverPings (Program.modify f : M Unit) := within_modify h

theorem neverPings_emit {e : Event} (h : e.isPing = false) : NeverPings (emit e) :=
  within_modify fun w => .log w h

theorem neverPings_query (q : Query) :
    NeverPings (Program.query (A := Answer) q) := within_query trivial

theorem neverPings_modifyClient {f : Client → Client}
    (h : ∀ c, (f c).isPingOutstanding = c.isPingOutstanding) : NeverPings (modifyClient f) :=
  within_modify fun w => ⟨h w.client, adds_of_eq rfl⟩

theorem neverPings_getClient : NeverPings getClient :=
  neverPings_of_idle (within_getClient fun _ => rfl)

theorem neverPings_getClientState : NeverPings getClientState :=
  neverPings_of_idle (within_getClientState fun _ => rfl)

theorem neverPings_hasTimerExpired (timer : TimerName) : NeverPings (hasTimerExpired timer) :=
  neverPings_query _

theorem neverPings_countdown (timer : TimerName) (duration : UInt32) :
    NeverPings (countdown timer duration) := neverPings_emit rfl

theorem neverPings_getNextPacketId : NeverPings getNextPacketId :=
  within_atomically fun _ => ⟨rfl, adds_of_eq rfl⟩

theorem neverPings_assignPublishId (arg : PublishArg) (params : PublishParams) :
    NeverPings (assignPublishId arg params) := by
  refine .ite (neverPings_getNextPacketId.bind fun id => ?_) (within_pure _)
  refine (neverPings_modify fun w => ?_).bind fun _ => within_pure _
  cases arg <;> exact ⟨rfl, adds_of_eq rfl⟩

theorem neverPings_setClientState (change : StateChange) (expected new : ClientState) :
    NeverPings (setClientState change expected new) := by
  refine within_atomically fun w => ?_
  split
  · exact .granted w change expected new
  · exact .refused w change expected new

theorem neverPings_putClientState (new : ClientState) : NeverPings (putClientState new) :=
  within_modify fun _ => ⟨rfl, adds_one rfl rfl⟩

theorem neverPings_pushMessage (msg : MessageParams) : NeverPings (pushMessage msg) :=
  within_modify fun _ => ⟨rfl, adds_of_eq rfl⟩

theorem neverPings_popMessage (msg : MessageParams) : NeverPings (popMessage msg) :=
  within_atomically fun _ => ⟨rfl, adds_of_eq rfl⟩

theorem neverPings_netConnect : NeverPings netConnect :=
  (neverPings_query _).bind fun _ => (neverPings_emit rfl).bind fun _ => within_pure _

theorem neverPings_netDisconnect : NeverPings netDisconnect :=
  (neverPings_query _).bind fun _ => neverPings_emit rfl

theorem neverPings_netDestroy : NeverPings netDestroy :=
  (neverPings_query _).bind fun _ => (neverPings_emit rfl).bind fun _ => within_pure _

theorem neverPings_lockMutex (mutex : MutexName) : NeverPings (lockMutex mutex) :=
  neverPings_of_idle (within_lockMutex (fun _ => rfl) _)

/-- A body may run in any frame but that of a connect, which would forget the ping. -/
theorem Accounts.framed {f : Frame} {body : M IotError} (h : Accounts allow body)
    (hf : f ≠ .connecting) : Accounts allow (framed f body) := by
  apply Accounts.bind (neverPings_emit rfl).accounts
  intro _
  apply Accounts.bind h
  intro rc
  apply Accounts.bind (neverPings_emit (Event.isPing_leave fun heq => absurd heq hf)).accounts
  exact fun _ => accounts_pure rc

/-- Plain steps have nothing to do with pings. -/
theorem neverPings_plain {p : M α} (h : IsPlainStep p) : NeverPings p := by
  cases h with
  | pure a => exact within_pure a
  | stop => exact within_stop
  | look view => exact within_atomically fun w => .refl w
  | modifyClient _ hping => exact neverPings_modifyClient hping
  | countdown timer duration => exact neverPings_countdown timer duration
  | hasTimerExpired timer => exact neverPings_hasTimerExpired timer
  | netIsConnected => exact neverPings_query _
  | lockMutex mutex => exact neverPings_lockMutex mutex
  | unlockMutex mutex => exact neverPings_of_idle (within_unlockMutex (fun _ => rfl) mutex)
  | getNextPacketId => exact neverPings_getNextPacketId
  | assignPublishId arg params => exact neverPings_assignPublishId arg params

/-- No single step bears on pings but sending and reading packets; a connect
does so in its frame. -/
theorem primitives_accounts : Primitives (· ≠ .connecting) fun _ p => Accounts allow p where
  plain h := (neverPings_plain h).accounts
  bind hp hg := hp.bind hg
  delivered f hf := NeverPings.accounts <| neverPings_modify fun w => by
    obtain ⟨name, topic, payload, data, heq⟩ := hf w
    rw [heq]
    exact .log w rfl
  framed hf hbody := hbody.framed hf
  query q _ := (neverPings_query q).accounts
  emit e he := NeverPings.accounts <| neverPings_emit <| by
    cases e <;> first | rfl | cases he
  setState change expected new _ := (neverPings_setClientState change expected new).accounts
  putState new _ := (neverPings_putClientState new).accounts

end Rules

/-! ## Sending -/

/-- What is sent next does not begin like a PINGREQ. -/
def World.SendsOtherwise (w : World) : Prop := w.client.writeBuf 0 ≠ 0xC0

/-- A buffer that does not begin like a PINGREQ holds none, at any length. -/
theorem load_ne_pingreq {w : World} (h : w.SendsOtherwise) (length : Nat) :
    w.client.writeBuf.load 0 length ≠ pingreq := by
  intro heq
  cases length with
  | zero => cases heq
  | succ length =>
      rw [Memory.load_succ] at heq
      exact h (List.cons.inj heq).1

/-- A packet that has been put into the buffer begins as it does itself. -/
theorem sendsOtherwise_store {w : World} {packet : List UInt8} (h : BeginsOtherwise packet) :
    (w.onClient fun c => { c with writeBuf := c.writeBuf.store 0 packet }).SendsOtherwise := by
  obtain ⟨header, rest, rfl, hheader⟩ := h
  intro heq
  exact hheader ((@Memory.store_apply w.client.writeBuf 0 0 (header :: rest)
    (Nat.succ_pos _)).symm.trans heq)

section Sending

variable {allow : Policy} {fuel length : Nat} {timer : TimerName} {s : World}

/-- A PINGREQ is sent only while no ping is outstanding. -/
theorem wp_internalSendPacket_pinging (hs : Accounted s)
    (hfree : s.client.writeBuf.load 0 length = pingreq → s.trace.pingOutstanding = false) :
    wp (pinging allow) (internalSendPacket fuel length timer)
      (fun rc t => (rc = .success → ∃ u, Writes s u ∧
        t = u.log (.sent (s.client.writeBuf.load 0 length))) ∧ (rc ≠ .success → Writes s t)) s := by
  apply wp_internalSendPacket_recorded
  · exact fun _ _ ht _ _ => (Unpinged.of_writes ht).accounted hs
  · exact fun _ _ ht hu => (Unpinged.of_writes (ht.trans hu)).singly hs.singly
  · intro u hu
    have hu' := Unpinged.of_writes hu
    apply (hu'.singly hs.singly).cons
    intro heq
    rw [hu'.outstanding_eq]
    exact hfree (Event.sent.inj heq)

/-- Sending another packet leaves pings as they were. -/
theorem wp_internalSendPacket_otherwise (hs : Accounted s) (hload : s.SendsOtherwise) :
    wp (pinging allow) (internalSendPacket fuel length timer) (fun _ t => Accounted t) s := by
  have hother : s.client.writeBuf.load 0 length ≠ pingreq := load_ne_pingreq hload length
  apply wp_mono _ (wp_internalSendPacket_pinging hs fun heq => absurd heq hother)
  rintro rc t ⟨hsent, hfailed⟩
  by_cases hrc : rc = .success
  · obtain ⟨u, hu, rfl⟩ := hsent hrc
    have hping : (Event.sent (s.client.writeBuf.load 0 length)).isPing = false :=
      decide_eq_false hother
    exact ((Unpinged.of_writes hu).trans (.log u hping)).accounted hs
  · exact (Unpinged.of_writes (hfailed hrc)).accounted hs

theorem wp_send_otherwise {next : M IotError} (hnext : Accounts allow next) (hs : Accounted s)
    (hload : s.SendsOtherwise) :
    wp (pinging allow) (internalSendPacket fuel length timer >>= fun rc => onSuccess rc next)
      (fun _ t => Accounted t) s := by
  rw [wp_bind]
  apply wp_mono _ (wp_internalSendPacket_otherwise hs hload)
  exact fun rc t ht => hnext.onSuccess rc t ht

/-- A packet other than PINGREQ is put into the buffer, or its error is passed on. -/
theorem wp_serialized_otherwise {make : Client → Except IotError (List UInt8)}
    {next : Nat → M IotError} {Φ : IotError → World → Prop} (hs : Accounted s)
    (hmake : ∀ packet, make s.client = .ok packet → BeginsOtherwise packet)
    (herror : ∀ rc, make s.client = .error rc → Φ rc s)
    (hnext : ∀ len t, Accounted t → t.SendsOtherwise → wp (pinging allow) (next len) Φ t) :
    wp (pinging allow) (serialized make next) Φ s := by
  apply wp_serialized hs.singly herror
  intro packet hpacket
  have hstored : Accounted (s.onClient fun c => { c with writeBuf := c.writeBuf.store 0 packet }) :=
    Unpinged.accounted (s := s) ⟨rfl, adds_of_eq rfl⟩ hs
  exact ⟨hstored.singly, hnext _ _ hstored (sendsOtherwise_store (hmake _ hpacket))⟩

theorem accounts_serialized {make : Client → Except IotError (List UInt8)} {next : Nat → M IotError}
    (hmake : ∀ c packet, make c = .ok packet → BeginsOtherwise packet)
    (hnext : ∀ len t, Accounted t → t.SendsOtherwise →
      wp (pinging allow) (next len) (fun _ u => Accounted u) t) :
    Accounts allow (serialized make next) := fun _ hs =>
  wp_serialized_otherwise hs (hmake _) (fun _ _ => hs) hnext

/-- A packet other than PINGREQ is serialized and sent. -/
theorem accounts_request {make : Client → Except IotError (List UInt8)} {next : M IotError}
    (lengthOf : Nat → Nat) (hmake : ∀ c packet, make c = .ok packet → BeginsOtherwise packet)
    (hnext : Accounts allow next) :
    Accounts allow (serialized make fun len =>
      internalSendPacket fuel (lengthOf len) timer >>= fun rc => onSuccess rc next) :=
  accounts_serialized hmake fun _ _ ht hload => wp_send_otherwise hnext ht hload

end Sending

/-! ## Handling messages -/

section Messages

variable {allow : Policy} {fuel : Nat} {call : Call → M IotError}

/-- Application code accounts for pings if the calls that it makes do. -/
theorem accounts_application (hcall : ∀ c s, Accounted s → allow.allowsCall s c →
    wp (pinging allow) (call c) (fun _ t => Accounted t) s) :
    Accounts allow (application fuel call) := by
  intro s hs
  apply wp_mono _ (wp_application fuel (fun t ht _ => ht) hcall hs)
  exact fun _ t ht => ht.1

variable (happ : Accounts allow (application fuel call))

include happ

/-- So does the delivery of a message. -/
theorem accounts_internalDeliverMessage (topicOff : Nat) (topicNameLen : UInt16) :
    Accounts allow (internalDeliverMessage fuel call topicOff topicNameLen) :=
  primitives_accounts.internalDeliverMessage (fun _ => nofun) happ
    (fun _ => (neverPings_setClientState _ _ _).accounts) topicOff topicNameLen

/-- So does a PUBLISH, whose PUBACK is no PINGREQ. -/
theorem accounts_internalHandlePublish (timer : TimerName) :
    Accounts allow (internalHandlePublish fuel call timer) := by
  apply Accounts.bind neverPings_getClient.accounts
  intro c
  split
  next => exact accounts_pure _
  next =>
    refine (neverPings_pushMessage _).accounts.bind fun _ => ?_
    refine (accounts_internalDeliverMessage happ _ _).bind fun rc => ?_
    refine (neverPings_popMessage _).accounts.bind fun msg => ?_
    refine Accounts.onSuccess rc (.ite (accounts_pure _) ?_)
    apply accounts_serialized fun c packet h => beginsOtherwise_serializeAck h (by decide)
    exact fun _ _ ht hload => wp_internalSendPacket_otherwise ht hload

/-- All packets but PINGRESP. -/
theorem accounts_dispatchPacket {packetType : UInt8} (timer : TimerName)
    (hother : MessageType.ofNibble packetType ≠ .pingresp) :
    Accounts allow (dispatchPacket fuel call timer packetType) := by
  unfold dispatchPacket
  split
  case h_5 => exact accounts_internalHandlePublish happ timer
  case h_8 heq => exact absurd heq hother
  all_goals exact accounts_pure _

end Messages

/-! ## Reading -/

/-- The mutex of a read can be released when a PINGRESP has been read. -/
def Policy.ReleasesPingresp (allow : Policy) : Prop :=
  ∀ s older (ok : Bool), s.trace = .received .pingresp :: older → allow (.unlock .tlsRead) s ok →
    ok = true

section Reading

variable {allow : Policy} {fuel : Nat} {call : Call → M IotError}

/-- A PINGRESP has been read, and the flag is still as it was before. -/
def Answered (w : World) : Prop :=
  ∃ older, w.trace = .received .pingresp :: older ∧ Trace.PingsSingly older

/-- Reading a PINGRESP sends nothing. -/
theorem Answered.singly {w : World} (h : Answered w) : w.trace.PingsSingly := by
  obtain ⟨older, htrace, hsingly⟩ := h
  rw [htrace]
  exact hsingly.cons nofun

/-- Once the flag has been reset, flag and trace agree again. -/
theorem Answered.accounted {s t : World} (h : Answered s)
    (hflag : t.client.isPingOutstanding = false)
    (htrace : t.trace = s.trace) : Accounted t := by
  constructor
  · obtain ⟨older, hs, -⟩ := h
    rw [hflag, htrace, hs]
    rfl
  · rw [htrace]
    exact h.singly

/-- Behind a PINGRESP the mutex of the read is released. -/
theorem wp_unlockMutex_answered (hrelease : allow.ReleasesPingresp) {s : World} (hs : Answered s) :
    wp (pinging allow) (unlockMutex .tlsRead) (fun rc t => rc = .success ∧ t = s) s := by
  have hsingly := hs.singly
  obtain ⟨older, htrace, -⟩ := hs
  simp only [unlockMutex, wp_bind, wp_getClient]
  refine ⟨hsingly, ?_⟩
  split
  · simp only [wp_bind, wp_query]
    refine ⟨fun hne => absurd rfl hne, fun ok hok => ⟨?_, rfl⟩⟩
    rw [hrelease s older ok htrace hok, if_pos rfl]
  · exact ⟨rfl, rfl⟩

/-- Dispatching a PINGRESP resets the flag. -/
theorem wp_dispatchPacket_answered (timer : TimerName) {packetType : UInt8}
    (htype : MessageType.ofNibble packetType = .pingresp) {s : World} (hs : Answered s) :
    wp (pinging allow) (dispatchPacket fuel call timer packetType) (fun _ t => Accounted t) s := by
  unfold dispatchPacket
  rw [htype]
  simp only [countdown, wp_bind, wp_modifyClient, wp_getClient, wp_emit, pure_eq, wp_ret]
  have hreset : Accounted (s.onClient fun c => { c with isPingOutstanding := false }) :=
    hs.accounted rfl rfl
  have hcounting := (Unpinged.log _ (e := .countdown .ping s.client.keepAliveInterval.toUInt32)
    rfl).accounted hreset
  exact ⟨hreset.singly, hreset.singly, hcounting.singly, hcounting⟩

/-- Reading and dispatching one packet accounts for pings, whichever packet it is. -/
theorem accounts_internalCycleRead (hrelease : allow.ReleasesPingresp)
    (happ : Accounts allow (application fuel call)) (timer : TimerName) :
    Accounts allow (internalCycleRead fuel call timer) := by
  intro s hs
  simp only [internalCycleRead, wp_bind]
  apply wp_mono _ (wp_neverPings (neverPings_lockMutex _) hs)
  intro threadRc t ht
  have ht' := ht.accounted hs
  split
  next => exact ht'
  next =>
    rw [wp_bind]
    have hrecorded : wp (pinging allow) (internalReadPacket fuel) (fun r u => Recorded t u r) t :=
      by
      apply wp_internalReadPacket_recorded
      · exact fun _ _ hu _ _ => (Unpinged.of_fetches hu).accounted ht'
      · exact fun _ _ hu hv => (Unpinged.of_fetches (hu.trans hv)).singly ht'.singly
      · exact fun _ _ hu => ((Unpinged.of_fetches hu).singly ht'.singly).cons (by simp)
    apply wp_mono _ hrecorded
    intro r u hu
    rw [wp_bind]
    have hunlock : NeverPings (unlockMutex .tlsRead) :=
      neverPings_of_idle (within_unlockMutex (fun _ => rfl) _)
    cases r with
    | error rc =>
        have hu' := (Unpinged.of_fetches hu).accounted ht'
        apply wp_mono _ (wp_neverPings hunlock hu')
        intro threadRc v hv
        split
        · exact hv.accounted hu'
        · exact hv.accounted hu'
        next heq => cases heq
    | ok packetType =>
        obtain ⟨v, hv, rfl⟩ := hu
        have hv' := (Unpinged.of_fetches hv).accounted ht'
        -- a PINGRESP is handled before anything else happens
        by_cases htype : MessageType.ofNibble packetType = .pingresp
        · have hanswered : Answered (v.log (.received (MessageType.ofNibble packetType))) :=
            ⟨v.trace, by rw [htype]; rfl, hv'.singly⟩
          apply wp_mono _ (wp_unlockMutex_answered hrelease hanswered)
          rintro threadRc x ⟨rfl, rfl⟩
          simp only [ne_eq, not_true_eq_false, if_false, wp_bind]
          exact wp_mono (fun _ _ hy => hy) (wp_dispatchPacket_answered timer htype hanswered)
        · have hping : (Event.received (MessageType.ofNibble packetType)).isPing = false :=
            decide_eq_false htype
          have hreceived : Accounted (v.log (.received (MessageType.ofNibble packetType))) :=
            (Unpinged.log v hping).accounted hv'
          apply wp_mono _ (wp_neverPings hunlock hreceived)
          intro threadRc x hx
          have hx' := hx.accounted hreceived
          simp only
          split
          · exact hx'
          · exact (accounts_dispatchPacket happ timer htype).bind (fun _ => accounts_pure _) x hx'

theorem accounts_internalWaitForRead
    (hread : ∀ timer, Accounts allow (internalCycleRead fuel call timer))
    (packetType : MessageType) :
    Accounts allow (internalWaitForRead fuel call packetType) :=
  primitives_accounts.internalWaitForRead hread nofun

end Reading

/-! ## Connecting -/

section Connecting

variable {allow : Policy} {fuel : Nat} {call : Call → M IotError}

/-- What a handshake leaves: on success the flag has been reset, and the ping is forgotten when the
connect returns. -/
structure Greets (rc : IotError) (w : World) : Prop where
  accepted : rc = .success → w.client.isPingOutstanding = false ∧ w.trace.PingsSingly
  failed : rc ≠ .success → Accounted w

/-- A connect that has failed leaves the ping as outstanding as it was. -/
theorem Accounted.greets {rc : IotError} {w : World} (h : Accounted w) (hrc : rc ≠ .success) :
    Greets rc w := ⟨fun heq => absurd heq hrc, fun _ => h⟩

/-- What a handshake leaves outlasts steps that have nothing to do with pings. -/
theorem Greets.unpinged {rc : IotError} {s t : World} (h : Greets rc s) (ht : Unpinged s t) :
    Greets rc t := by
  refine ⟨fun hrc => ?_, fun hrc => ht.accounted (h.failed hrc)⟩
  obtain ⟨hflag, hsingly⟩ := h.accepted hrc
  exact ⟨ht.flag.trans hflag, ht.singly hsingly⟩

theorem Greets.singly {rc : IotError} {w : World} (h : Greets rc w) : w.trace.PingsSingly := by
  by_cases hrc : rc = .success
  · exact (h.accepted hrc).2
  · exact (h.failed hrc).singly

/-- When a connect returns, flag and trace agree. -/
theorem Greets.leave {rc : IotError} {w : World} (h : Greets rc w) :
    Accounted (w.log (.leave .connecting rc)) := by
  by_cases hrc : rc = .success
  · obtain ⟨hflag, hsingly⟩ := h.accepted hrc
    rw [hrc]
    exact ⟨hflag, hsingly.cons nofun⟩
  · exact (Unpinged.log w (Event.isPing_leave fun _ => hrc)).accounted (h.failed hrc)

/-- A handshake that succeeds resets the flag. -/
theorem wp_handshake (hwait : Accounts allow (internalWaitForRead fuel call .connack)) {s : World}
    (hs : Accounted s) : wp (pinging allow) (handshake fuel call) Greets s := by
  simp only [handshake, countdown, wp_bind, wp_getClient, wp_emit, wp_modifyClient]
  have hprepared : Unpinged s ((s.log (.countdown .command s.client.commandTimeoutMs)).onClient
      fun c => { c with keepAliveInterval := c.options.keepAliveIntervalInSec }) :=
    ⟨rfl, adds_one rfl rfl⟩
  have hs' := hprepared.accounted hs
  refine ⟨hs.singly, hs'.singly, hs'.singly, ?_⟩
  apply wp_serialized_otherwise hs' fun _ h => beginsOtherwise_serializeConnect h
  · intro rc herror
    exact hs'.greets ((reportsErrors_serializeConnect _ _).ne_success herror)
  · intro len t ht hload
    rw [wp_bind]
    apply wp_mono _ (wp_internalSendPacket_otherwise ht hload)
    intro rc t ht
    rw [wp_onSuccess]
    refine ⟨fun _ => ?_, ht.greets⟩
    rw [wp_bind]
    apply wp_mono _ (hwait t ht)
    intro rc u hu
    rw [wp_onSuccess]
    refine ⟨fun _ => ?_, hu.greets⟩
    simp only [wp_bind, wp_getClient]
    refine ⟨hu.singly, ?_⟩
    split
    next rc hrc => exact hu.greets ((reportsErrors_deserializeConnack _ _).ne_success hrc)
    next sessionPresent connackRc hconnack =>
      split
      next => exact hu.greets (deserializeConnack_ne_success hconnack)
      next =>
        simp only [wp_bind, wp_modifyClient, wp_emit, pure_eq, wp_ret]
        -- the flag has been reset; setting the timer sends nothing
        have hcounting := hu.singly.cons (e := .countdown .ping u.client.keepAliveInterval.toUInt32)
          nofun
        exact ⟨hu.singly, hcounting, fun _ => ⟨rfl, hcounting⟩, fun hne => absurd rfl hne⟩

/-- So does the connect around it. -/
theorem wp_internalConnect (hwait : Accounts allow (internalWaitForRead fuel call .connack))
    (params : Option ConnectParams) {s : World} (hs : Accounted s) :
    wp (pinging allow) (internalConnect fuel call params) Greets s := by
  have happly : NeverPings (applyConnectParams params) := by
    cases params with
    | none => exact within_pure _
    | some params => exact neverPings_modifyClient fun _ => rfl
  simp only [internalConnect, wp_bind]
  apply wp_mono _ (wp_neverPings happly hs)
  intro _ t ht
  apply wp_mono _ (wp_neverPings neverPings_netConnect (ht.accounted hs))
  intro rc u hu
  have hu' := hu.accounted (ht.accounted hs)
  rw [wp_onSuccess]
  exact ⟨fun _ => wp_handshake hwait hu', hu'.greets⟩

/-- A connect accounts for pings, whether it succeeds or not. -/
theorem accounts_connect (hwait : Accounts allow (internalWaitForRead fuel call .connack))
    (params : Option ConnectParams) : Accounts allow (connect fuel call params) := by
  apply Accounts.bind neverPings_getClientState.accounts
  intro clientState
  refine Accounts.ite ?_ (accounts_pure _)
  refine (neverPings_setClientState _ _ _).accounts.bind fun claimRc => ?_
  intro s hs
  rw [wp_framed]
  have hentered := (Unpinged.log s (e := .enter .connecting) rfl).accounted hs
  refine ⟨hentered.singly, ?_⟩
  -- flag and trace agree again once the frame has been left
  apply wp_mono (Φ := Greets) fun rc t ht => ⟨ht.leave.singly, ht.leave⟩
  rw [wp_bind]
  apply wp_mono _ (wp_internalConnect hwait params hentered)
  intro rc t ht
  split
  next hrc =>
    have ht' := ht.failed hrc
    rw [wp_bind]
    apply wp_mono _ (wp_neverPings neverPings_netDisconnect ht')
    intro _ u hu
    have hu' := hu.accounted ht'
    rw [wp_bind]
    apply wp_mono _ (wp_neverPings neverPings_netDestroy hu')
    intro _ v hv
    have hv' := hv.accounted hu'
    rw [wp_bind]
    apply wp_mono _ (wp_neverPings (neverPings_setClientState _ _ _) hv')
    exact fun _ x hx => (hx.accounted hv').greets hrc
  next =>
    rw [wp_bind, wp_setClientState]
    split
    next =>
      have hgranted := fun change => ht.unpinged (.granted t change .connecting .connectedIdle)
      exact ⟨(hgranted _).singly, hgranted _⟩
    next =>
      have hrefused := fun change => ht.unpinged (.refused t change .connecting .connectedIdle)
      exact ⟨(hrefused _).singly, hrefused _⟩

end Connecting

end MqttClient
