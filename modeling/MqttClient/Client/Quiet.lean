import MqttClient.Client.Api

/-! # Reading, writing and keeping time

Most of what the client does is between its buffers, the network and the
clock. These steps leave alone what the other parts of the development are
about: the client state, the table of handlers, and which calls are in progress.
-/

namespace MqttClient

open Effect

/-- What is asked for to read, write and keep time. -/
def Query.isIo : Query → Bool
  | .netRead _ _ | .netWrite _ | .netIsConnected | .hasTimerExpired _ | .lock _ | .unlock _ => true
  | .netConnect | .netDisconnect | .netDestroy | .application => false

def Event.isIo : Event → Bool
  | .netRead _ _ _ _ | .netWrite _ _ _ | .countdown _ _ | .stored _ _ | .sent _ | .received _ =>
      true
  | _ => false

def Event.isFetching : Event → Bool
  | .netRead _ _ _ _ | .countdown _ _ | .stored _ _ => true
  | _ => false

def Event.isReading : Event → Bool
  | .netRead _ _ _ _ | .countdown _ _ | .stored _ _ | .received _ => true
  | _ => false

def Event.isSending : Event → Bool
  | .netWrite _ _ _ | .countdown _ _ | .sent _ => true
  | _ => false

theorem Event.isReading_of_isFetching {e : Event} (h : e.isFetching = true) :
    e.isReading = true := by
  cases e <;> first | rfl | cases h

theorem Event.isIo_of_isReading {e : Event} (h : e.isReading = true) : e.isIo = true := by
  cases e <;> first | rfl | cases h

theorem Event.isIo_of_isSending {e : Event} (h : e.isSending = true) : e.isIo = true := by
  cases e <;> first | rfl | cases h

/-! ## What such steps do -/

/-- Only events in `E` have been added to the trace. -/
def Adds (E : Event → Prop) (s t : World) : Prop :=
  ∃ ev, t.trace = ev ++ s.trace ∧ ∀ e ∈ ev, E e

section Adds

variable {E : Event → Prop}

/-- A step that leaves the trace alone adds events of any kind. -/
theorem adds_of_eq {s t : World} (h : t.trace = s.trace) : Adds E s t := ⟨[], h, by simp⟩

theorem adds_one {s t : World} {e : Event} (h : t.trace = e :: s.trace) (he : E e) : Adds E s t :=
  ⟨[e], h, fun _ he' => List.mem_singleton.mp he' ▸ he⟩

theorem adds_two {s t : World} {e e' : Event} (h : t.trace = e :: e' :: s.trace) (he : E e)
    (he' : E e') : Adds E s t := by
  refine ⟨[e, e'], h, fun e'' hmem => ?_⟩
  rcases List.mem_pair.mp hmem with rfl | rfl
  · exact he
  · exact he'

/-- What two steps add, one after the other, has been added by both. -/
theorem Adds.trans {s t u : World} (h : Adds E s t) (h' : Adds E t u) : Adds E s u := by
  obtain ⟨ev, htrace, hev⟩ := h
  obtain ⟨ev', htrace', hev'⟩ := h'
  refine ⟨ev' ++ ev, by rw [htrace', htrace, List.append_assoc], fun e he => ?_⟩
  rcases List.mem_append.mp he with he | he
  · exact hev' e he
  · exact hev e he

/-- Events of one kind are events of any wider kind. -/
theorem Adds.mono {E' : Event → Prop} {s t : World} (h : Adds E s t) (hmono : ∀ e, E e → E' e) :
    Adds E' s t := by
  obtain ⟨ev, htrace, hev⟩ := h
  exact ⟨ev, htrace, fun e he => hmono e (hev e he)⟩

end Adds

/-- A step that reads bytes into the receive buffer or keeps time, on the way to a packet. -/
structure Fetches (s t : World) : Prop where
  client : t.client = { s.client with readBuf := t.client.readBuf }
  messages : t.messages = s.messages
  trace : Adds (·.isFetching) s t

/-- A step that reads into the receive buffer or keeps time. -/
structure Reads (s t : World) : Prop where
  client : t.client = { s.client with readBuf := t.client.readBuf }
  messages : t.messages = s.messages
  trace : Adds (·.isReading) s t

/-- A step that writes to the network or keeps time. -/
structure Sends (s t : World) : Prop where
  client : t.client = s.client
  messages : t.messages = s.messages
  trace : Adds (·.isSending) s t

/-- A step that reads, writes or keeps time. -/
structure Quiet (s t : World) : Prop where
  clientState : t.client.clientState = s.client.clientState
  messageHandlers : t.client.messageHandlers = s.client.messageHandlers
  readBufSize : t.client.readBufSize = s.client.readBufSize
  writeBufSize : t.client.writeBufSize = s.client.writeBufSize
  messages : t.messages.map MessageParams.withoutId = s.messages.map MessageParams.withoutId
  trace : ∃ ev, t.trace = ev ++ s.trace ∧ ∀ e ∈ ev, e.isIo

/-- A quiet step that leaves alone the settings for reconnecting as well. -/
structure Io (s t : World) : Prop extends Quiet s t where
  isAutoReconnectEnabled : t.client.isAutoReconnectEnabled = s.client.isAutoReconnectEnabled
  currentReconnectWaitInterval :
    t.client.currentReconnectWaitInterval = s.client.currentReconnectWaitInterval

theorem Fetches.refl (s : World) : Fetches s s := ⟨rfl, rfl, adds_of_eq rfl⟩

theorem Fetches.trans {s t u : World} (h : Fetches s t) (h' : Fetches t u) : Fetches s u := by
  refine ⟨?_, h'.messages.trans h.messages, h.trace.trans h'.trace⟩
  rw [h'.client, h.client]

/-- Fetching bytes is reading. -/
theorem Fetches.reads {s t : World} (h : Fetches s t) : Reads s t :=
  ⟨h.client, h.messages, h.trace.mono fun _ => Event.isReading_of_isFetching⟩

theorem Reads.refl (s : World) : Reads s s := ⟨rfl, rfl, adds_of_eq rfl⟩

theorem Reads.trans {s t u : World} (h : Reads s t) (h' : Reads t u) : Reads s u := by
  refine ⟨?_, h'.messages.trans h.messages, h.trace.trans h'.trace⟩
  rw [h'.client, h.client]

theorem Sends.refl (s : World) : Sends s s := ⟨rfl, rfl, adds_of_eq rfl⟩

theorem Sends.trans {s t u : World} (h : Sends s t) (h' : Sends t u) : Sends s u :=
  ⟨h'.client.trans h.client, h'.messages.trans h.messages, h.trace.trans h'.trace⟩

namespace Quiet

theorem refl (s : World) : Quiet s s := ⟨rfl, rfl, rfl, rfl, rfl, adds_of_eq rfl⟩

theorem trans {s t u : World} (h : Quiet s t) (h' : Quiet t u) : Quiet s u :=
  ⟨h'.clientState.trans h.clientState, h'.messageHandlers.trans h.messageHandlers,
    h'.readBufSize.trans h.readBufSize, h'.writeBufSize.trans h.writeBufSize,
    h'.messages.trans h.messages, Adds.trans h.trace h'.trace⟩

theorem log {e : Event} (w : World) (h : e.isIo) : Quiet w (w.log e) :=
  ⟨rfl, rfl, rfl, rfl, rfl, adds_one rfl h⟩

theorem filled (w : World) (site : ReadSite) (off : Nat) {n : Nat} (r : ReadResult n) :
    Quiet w (w.filled site off r) := ⟨rfl, rfl, rfl, rfl, rfl, adds_two rfl rfl rfl⟩

theorem withLength (w : World) (field : List UInt8) : Quiet w (w.withLength field) :=
  ⟨rfl, rfl, rfl, rfl, rfl, adds_one rfl rfl⟩

/-- Quiet steps enter no call and leave none. -/
theorem stack_eq {s t : World} (h : Quiet s t) : t.stack = s.stack := by
  obtain ⟨ev, htrace, hev⟩ := h.trace
  simp only [World.stack, htrace]
  clear htrace
  induction ev with
  | nil => rfl
  | cons e ev ih =>
      rw [← ih fun e' he' => hev e' (List.mem_cons_of_mem e he')]
      have he := hev e List.mem_cons_self
      cases e <;> first | rfl | cases he

/-- Quiet steps neither open the transport nor close it. -/
theorem transportOpen_eq {s t : World} (h : Quiet s t) : t.transportOpen = s.transportOpen := by
  obtain ⟨ev, htrace, hev⟩ := h.trace
  simp only [World.transportOpen, htrace]
  clear htrace
  induction ev with
  | nil => rfl
  | cons e ev ih =>
      rw [← ih fun e' he' => hev e' (List.mem_cons_of_mem e he')]
      have he := hev e List.mem_cons_self
      cases e <;> first | rfl | cases he

end Quiet

theorem Io.trans {s t u : World} (h : Io s t) (h' : Io t u) : Io s u :=
  ⟨h.toQuiet.trans h'.toQuiet, h'.isAutoReconnectEnabled.trans h.isAutoReconnectEnabled,
    h'.currentReconnectWaitInterval.trans h.currentReconnectWaitInterval⟩

theorem Io.refl (s : World) : Io s s := ⟨.refl s, rfl, rfl⟩

/-- Reading touches the receive buffer alone. -/
theorem Reads.io {s t : World} (h : Reads s t) : Io s t := by
  have htrace := h.trace.mono fun _ => Event.isIo_of_isReading
  refine ⟨⟨?_, ?_, ?_, ?_, by rw [h.messages], htrace⟩, ?_, ?_⟩ <;> rw [h.client]

/-- Sending touches nothing of the client. -/
theorem Sends.io {s t : World} (h : Sends s t) : Io s t := by
  have htrace := h.trace.mono fun _ => Event.isIo_of_isSending
  refine ⟨⟨?_, ?_, ?_, ?_, by rw [h.messages], htrace⟩, ?_, ?_⟩ <;> rw [h.client]

/-! ## The programs that take such steps -/

/-- A program that reads bytes or keeps time. -/
abbrev OnlyFetches {α : Type} (p : M α) : Prop := p.Within (fun q => q.isIo) Fetches

/-- A program that reads packets or keeps time. -/
abbrev OnlyReads {α : Type} (p : M α) : Prop := p.Within (fun q => q.isIo) Reads

/-- A program that writes to the network or keeps time. -/
abbrev OnlySends {α : Type} (p : M α) : Prop := p.Within (fun q => q.isIo) Sends

/-- A program that only reads, writes and keeps time. -/
abbrev IsQuiet {α : Type} (p : M α) : Prop := p.Within (fun q => q.isIo) Quiet

/-- A quiet program that leaves alone the settings for reconnecting as well. -/
abbrev IsIo {α : Type} (p : M α) : Prop := p.Within (fun q => q.isIo) Io

open Program

section Kinds

variable {α : Type} {p : M α}

/-- A program that fetches bytes is one that reads. -/
theorem OnlyFetches.onlyReads (h : OnlyFetches p) : OnlyReads p :=
  h.mono (fun _ h => h) fun _ _ => Fetches.reads

/-- A program that reads does nothing but input and output. -/
theorem OnlyReads.isIo (h : OnlyReads p) : IsIo p := h.mono (fun _ h => h) fun _ _ => Reads.io

/-- So does one that sends. -/
theorem OnlySends.isIo (h : OnlySends p) : IsIo p := h.mono (fun _ h => h) fun _ _ => Sends.io

/-- Input and output are quiet. -/
theorem IsIo.isQuiet (h : IsIo p) : IsQuiet p := h.mono (fun _ h => h) fun _ _ => Io.toQuiet

end Kinds

/-! ### What changes nothing -/

section Idle

variable {R : World → World → Prop}

theorem within_getClient (hrefl : ∀ s, R s s) : getClient.Within (fun q => q.isIo) R :=
  within_atomically hrefl

theorem within_getClientState (hrefl : ∀ s, R s s) : getClientState.Within (fun q => q.isIo) R :=
  within_atomically hrefl

theorem within_isClientConnected (hrefl : ∀ s, R s s) :
    isClientConnected.Within (fun q => q.isIo) R := within_atomically hrefl

/-- Looking at a timer changes nothing. -/
theorem within_hasTimerExpired (timer : TimerName) :
    (hasTimerExpired timer).Within (fun q => q.isIo) R := within_query rfl

theorem within_netIsConnected : netIsConnected.Within (fun q => q.isIo) R := within_query rfl

/-- Taking a mutex changes nothing that is modelled. -/
theorem within_lockMutex (hrefl : ∀ s, R s s) (mutex : MutexName) :
    (lockMutex mutex).Within (fun q => q.isIo) R := by
  refine (within_getClient hrefl).bind fun c => .ite ?_ (within_pure _)
  exact Within.bind (within_query rfl) fun _ => within_pure _

/-- Nor does releasing it. -/
theorem within_unlockMutex (hrefl : ∀ s, R s s) (mutex : MutexName) :
    (unlockMutex mutex).Within (fun q => q.isIo) R := by
  refine (within_getClient hrefl).bind fun c => .ite ?_ (within_pure _)
  exact Within.bind (within_query rfl) fun _ => within_pure _

end Idle

/-! ### Reading a packet -/

section Reading

theorem onlyReads_emit {e : Event} (h : e.isReading) : OnlyReads (emit e) :=
  within_modify fun _ => ⟨rfl, rfl, adds_one rfl h⟩

theorem onlyFetches_countdown (timer : TimerName) (duration : UInt32) :
    OnlyFetches (countdown timer duration) := within_modify fun _ => ⟨rfl, rfl, adds_one rfl rfl⟩

/-- What is read goes into the receive buffer. -/
theorem onlyFetches_netReadToBuffer (site : ReadSite) (off n : Nat) :
    OnlyFetches (netReadToBuffer site off n) := by
  refine Within.bind (within_query rfl) fun r => ?_
  refine Within.bind (within_modify fun w => ?_) fun _ => within_pure _
  exact ⟨rfl, rfl, adds_two rfl rfl rfl⟩

/-- A byte of a length field does not go into the buffer. -/
theorem onlyFetches_netReadByte (site : ReadSite) : OnlyFetches (netReadByte site) := by
  refine Within.bind (within_query rfl) fun r => ?_
  refine Within.bind (within_modify fun w => ?_) fun _ => within_pure _
  exact ⟨rfl, rfl, adds_one rfl rfl⟩

/-- One byte of the length field is fetched at a time. -/
theorem onlyFetches_decodePacketRemainingLenStep (p : LengthProgress) :
    OnlyFetches (decodePacketRemainingLenStep p) := by
  refine .ite (within_pure _) ?_
  refine (onlyFetches_netReadByte _).bind fun r => ?_
  split
  next => exact within_pure _
  next => exact .ite (within_pure _) (within_pure _)

theorem onlyFetches_decodePacketRemainingLen (fuel : Nat) :
    OnlyFetches (decodePacketRemainingLen fuel) :=
  Within.loop onlyFetches_decodePacketRemainingLenStep fuel _

/-- A packet that is too long is read over the buffer, piece by piece. -/
theorem onlyFetches_drainStep (remLen readBufSize : Nat) (p : DrainProgress) :
    OnlyFetches (drainStep remLen readBufSize p) := by
  refine (onlyFetches_netReadToBuffer _ _ _).bind fun _ => .ite ?_ (within_pure _)
  exact .ite (within_pure _) (within_pure _)

theorem onlyFetches_withLength (field : List UInt8) :
    OnlyFetches (Program.modify (·.withLength field)) :=
  within_modify fun _ => ⟨rfl, rfl, adds_one rfl rfl⟩

theorem onlyFetches_readRemaining (off remLen : Nat) : OnlyFetches (readRemaining off remLen) :=
  .ite (onlyFetches_netReadToBuffer _ _ _) (within_pure _)

theorem onlyReads_countdown (timer : TimerName) (duration : UInt32) :
    OnlyReads (countdown timer duration) := (onlyFetches_countdown _ _).onlyReads

theorem onlyReads_getClient : OnlyReads getClient := within_getClient .refl

theorem onlyReads_netReadToBuffer (site : ReadSite) (off n : Nat) :
    OnlyReads (netReadToBuffer site off n) := (onlyFetches_netReadToBuffer _ _ _).onlyReads

theorem onlyReads_decodePacketRemainingLen (fuel : Nat) :
    OnlyReads (decodePacketRemainingLen fuel) :=
  (onlyFetches_decodePacketRemainingLen fuel).onlyReads

theorem onlyReads_drainStep (remLen readBufSize : Nat) (p : DrainProgress) :
    OnlyReads (drainStep remLen readBufSize p) := (onlyFetches_drainStep _ _ _).onlyReads

theorem onlyReads_readRemaining (off remLen : Nat) : OnlyReads (readRemaining off remLen) :=
  (onlyFetches_readRemaining _ _).onlyReads

/-- The body of a packet that fits is read, and recorded as received. -/
theorem onlyReads_readPacketBody (remLen : Nat) : OnlyReads (readPacketBody remLen) := by
  refine (onlyFetches_withLength _).onlyReads.bind fun _ => ?_
  refine (onlyReads_readRemaining _ _).bind fun _ => .ite ?_ (within_pure _)
  refine onlyReads_getClient.bind fun c => ?_
  exact (onlyReads_emit rfl).bind fun _ => within_pure _

/-- The rest of a packet is read, whether it fits or not. -/
theorem onlyReads_readPacketOfLength (fuel remLen : Nat) :
    OnlyReads (readPacketOfLength fuel remLen) := by
  refine onlyReads_getClient.bind fun c => .ite ?_ (onlyReads_readPacketBody _)
  exact (Within.loop (onlyReads_drainStep _ _) fuel _).bind fun _ => within_pure _

/-- Reading a packet reads only. -/
theorem onlyReads_internalReadPacket (fuel : Nat) : OnlyReads (internalReadPacket fuel) := by
  refine onlyReads_getClient.bind fun c => (onlyReads_countdown _ _).bind fun _ => ?_
  refine (onlyReads_netReadToBuffer _ _ _).bind fun _ => .ite (within_pure _) ?_
  refine .ite (within_pure _) ((onlyReads_decodePacketRemainingLen fuel).bind fun r => ?_)
  split
  next => exact within_pure _
  next => exact onlyReads_readPacketOfLength fuel _

end Reading

/-! ### Sending a packet -/

section Sending

/-- Sending is writing to the network and looking at the clock. -/
theorem within_sendPacketStep {R : World → World → Prop} (hrefl : ∀ s, R s s)
    (hwrite : ∀ s offered rc written, R s (s.log (.netWrite offered rc written))) (length : Nat)
    (timer : TimerName) (sent : Nat) :
    (sendPacketStep length timer sent).Within (fun q => q.isIo) R := by
  refine .ite ?_ (within_pure _)
  refine (within_hasTimerExpired timer).bind fun _ => .ite (within_pure _) ?_
  refine (within_getClient hrefl).bind fun c => ?_
  refine Within.bind ?_ fun _ => .ite (within_pure _) (within_pure _)
  refine Within.bind (within_query rfl) fun r => ?_
  exact Within.bind (within_modify fun w => hwrite w _ _ _) fun _ => within_pure _

/-- One write is made in a turn of the loop. -/
theorem onlySends_sendPacketStep (length : Nat) (timer : TimerName) (sent : Nat) :
    OnlySends (sendPacketStep length timer sent) :=
  within_sendPacketStep .refl (fun _ _ _ _ => ⟨rfl, rfl, adds_one rfl rfl⟩) length timer sent

/-- Sending a packet sends only. -/
theorem onlySends_internalSendPacket (fuel length : Nat) (timer : TimerName) :
    OnlySends (internalSendPacket fuel length timer) := by
  refine (within_getClient .refl).bind fun c => .ite (within_pure _) ?_
  refine (within_lockMutex .refl _).bind fun _ => .ite ?_ (within_pure _)
  refine (Within.loop (onlySends_sendPacketStep length timer) fuel 0).bind fun _ => ?_
  refine (within_unlockMutex .refl _).bind fun _ => .ite (.ite ?_ (within_pure _)) (within_pure _)
  refine Within.bind (within_modify fun w => ?_) fun _ => within_pure _
  exact ⟨rfl, rfl, adds_one rfl rfl⟩

end Sending

/-! ### All that is quiet -/

theorem isIo_emit {e : Event} (h : e.isIo) : IsIo (emit e) :=
  within_modify fun w => ⟨.log w h, rfl, rfl⟩

theorem isIo_countdown (timer : TimerName) (duration : UInt32) : IsIo (countdown timer duration) :=
  isIo_emit rfl

theorem isIo_getClient : IsIo getClient := within_getClient .refl

theorem isIo_internalSendPacket (fuel length : Nat) (timer : TimerName) :
    IsIo (internalSendPacket fuel length timer) := (onlySends_internalSendPacket _ _ _).isIo

theorem isIo_internalReadPacket (fuel : Nat) : IsIo (internalReadPacket fuel) :=
  (onlyReads_internalReadPacket fuel).isIo

theorem isIo_getNextPacketId : IsIo getNextPacketId :=
  within_atomically fun _ => ⟨⟨rfl, rfl, rfl, rfl, rfl, adds_of_eq rfl⟩, rfl, rfl⟩

/-- An identifier that is written into a block does not show once the identifiers are left out.
-/
theorem map_modify_withoutId (messages : List MessageParams) (depth : Nat) (id : UInt16) :
    (messages.modify depth fun msg => { msg with id := id }).map MessageParams.withoutId =
      messages.map MessageParams.withoutId := by
  induction messages generalizing depth with
  | nil => cases depth <;> rfl
  | cons msg messages ih =>
      cases depth with
      | zero => rfl
      | succ depth => exact congrArg (msg.withoutId :: ·) (ih depth)

/-- The identifier of a publish is put into the block of a message at most. -/
theorem isIo_assignPublishId (arg : PublishArg) (params : PublishParams) :
    IsIo (assignPublishId arg params) := by
  refine .ite (isIo_getNextPacketId.bind fun id => ?_) (within_pure _)
  refine Within.bind (within_modify fun w => ?_) fun _ => within_pure _
  cases arg with
  | own _ => exact .refl w
  | received depth =>
      exact ⟨⟨rfl, rfl, rfl, rfl, map_modify_withoutId _ _ _, adds_of_eq rfl⟩, rfl, rfl⟩

/-- What a change of the client's own data leaves alone. -/
structure Client.SameSession (c c' : Client) : Prop where
  clientState : c'.clientState = c.clientState
  messageHandlers : c'.messageHandlers = c.messageHandlers
  readBufSize : c'.readBufSize = c.readBufSize
  writeBufSize : c'.writeBufSize = c.writeBufSize
  isAutoReconnectEnabled : c'.isAutoReconnectEnabled = c.isAutoReconnectEnabled
  currentReconnectWaitInterval : c'.currentReconnectWaitInterval = c.currentReconnectWaitInterval

/-- A change of the client that leaves the session alone is quiet. -/
theorem isIo_modifyClient {f : Client → Client} (h : ∀ c : Client, c.SameSession (f c)) :
    IsIo (modifyClient f) := by
  refine within_modify fun w => ?_
  have hw := h w.client
  exact ⟨⟨hw.clientState, hw.messageHandlers, hw.readBufSize, hw.writeBufSize, rfl, adds_of_eq rfl⟩,
    hw.isAutoReconnectEnabled, hw.currentReconnectWaitInterval⟩

/-- A packet is put into the transmit buffer before anything is done with it. -/
theorem isIo_serialized {make : Client → Except IotError (List UInt8)} {next : Nat → M IotError}
    (h : ∀ len, IsIo (next len)) : IsIo (serialized make next) := by
  refine isIo_getClient.bind fun c => ?_
  split
  next => exact within_pure _
  next =>
    refine Within.bind (isIo_modifyClient ?_) fun _ => h _
    exact fun _ => ⟨rfl, rfl, rfl, rfl, rfl, rfl⟩

theorem isQuiet_emit {e : Event} (h : e.isIo) : IsQuiet (emit e) := (isIo_emit h).isQuiet

theorem isQuiet_getClient : IsQuiet getClient := within_getClient .refl

/-- A change of the client's own data. -/
theorem isQuiet_modifyClient {f : Client → Client}
    (h : ∀ c, (f c).clientState = c.clientState ∧ (f c).messageHandlers = c.messageHandlers ∧
      (f c).readBufSize = c.readBufSize ∧ (f c).writeBufSize = c.writeBufSize) :
    IsQuiet (modifyClient f) := by
  refine within_modify fun w => ?_
  obtain ⟨hstate, hhandlers, hread, hwrite⟩ := h w.client
  exact ⟨hstate, hhandlers, hread, hwrite, rfl, adds_of_eq rfl⟩

theorem isQuiet_countdown (timer : TimerName) (duration : UInt32) :
    IsQuiet (countdown timer duration) := isQuiet_emit rfl

theorem isQuiet_lockMutex (mutex : MutexName) : IsQuiet (lockMutex mutex) :=
  within_lockMutex .refl mutex

theorem isQuiet_unlockMutex (mutex : MutexName) : IsQuiet (unlockMutex mutex) :=
  within_unlockMutex .refl mutex

theorem isQuiet_getNextPacketId : IsQuiet getNextPacketId := isIo_getNextPacketId.isQuiet

theorem isQuiet_serialized {make : Client → Except IotError (List UInt8)}
    {next : Nat → M IotError} (h : ∀ len, IsQuiet (next len)) :
    IsQuiet (serialized make next) := by
  refine isQuiet_getClient.bind fun c => ?_
  split
  next => exact within_pure _
  next =>
    refine Within.bind (isQuiet_modifyClient ?_) fun _ => h _
    exact fun _ => ⟨rfl, rfl, rfl, rfl⟩

theorem isQuiet_internalSendPacket (fuel length : Nat) (timer : TimerName) :
    IsQuiet (internalSendPacket fuel length timer) := (isIo_internalSendPacket _ _ _).isQuiet

theorem isQuiet_internalReadPacket (fuel : Nat) : IsQuiet (internalReadPacket fuel) :=
  (isIo_internalReadPacket fuel).isQuiet

/-! ### The steps of which it consists -/

/-- The steps that neither send nor read a packet, and leave the flag for pings alone. -/
inductive IsPlainStep : {α : Type} → M α → Prop
  | pure {α : Type} (a : α) : IsPlainStep (pure a : M α)
  | stop {α : Type} : IsPlainStep (.stop : M α)
  | look {α : Type} (view : World → α) : IsPlainStep (Program.atomically view id)
  | modifyClient {f : Client → Client} (hf : ∀ c : Client, c.SameSession (f c))
      (hping : ∀ c : Client, (f c).isPingOutstanding = c.isPingOutstanding) :
      IsPlainStep (modifyClient f)
  | countdown (timer : TimerName) (duration : UInt32) : IsPlainStep (countdown timer duration)
  | hasTimerExpired (timer : TimerName) : IsPlainStep (hasTimerExpired timer)
  | netIsConnected : IsPlainStep netIsConnected
  | lockMutex (mutex : MutexName) : IsPlainStep (lockMutex mutex)
  | unlockMutex (mutex : MutexName) : IsPlainStep (unlockMutex mutex)
  | getNextPacketId : IsPlainStep getNextPacketId
  | assignPublishId (arg : PublishArg) (params : PublishParams) :
      IsPlainStep (assignPublishId arg params)

/-- The steps of which reading, writing and keeping time consists. -/
inductive IsIoStep : {α : Type} → M α → Prop
  | plain {α : Type} {p : M α} (h : IsPlainStep p) : IsIoStep p
  | send (fuel length : Nat) (timer : TimerName) : IsIoStep (internalSendPacket fuel length timer)
  | receive (fuel : Nat) : IsIoStep (internalReadPacket fuel)
  | ping (isPingOutstanding : Bool) :
      IsIoStep (modifyClient fun c => { c with isPingOutstanding := isPingOutstanding })

/-- Plain steps are input and output. -/
theorem IsPlainStep.isIo {α : Type} {p : M α} (h : IsPlainStep p) : IsIo p := by
  cases h with
  | pure a => exact within_pure a
  | stop => exact within_stop
  | look view => exact within_atomically .refl
  | modifyClient hf _ => exact isIo_modifyClient hf
  | countdown timer duration => exact isIo_countdown timer duration
  | hasTimerExpired timer => exact within_hasTimerExpired timer
  | netIsConnected => exact within_netIsConnected
  | lockMutex mutex => exact within_lockMutex .refl mutex
  | unlockMutex mutex => exact within_unlockMutex .refl mutex
  | getNextPacketId => exact isIo_getNextPacketId
  | assignPublishId arg params => exact isIo_assignPublishId arg params

/-- So are reading and sending packets and marking a ping. -/
theorem IsIoStep.isIo {α : Type} {p : M α} (h : IsIoStep p) : IsIo p := by
  cases h with
  | plain h => exact h.isIo
  | send fuel length timer => exact isIo_internalSendPacket fuel length timer
  | receive fuel => exact isIo_internalReadPacket fuel
  | ping isPingOutstanding => exact isIo_modifyClient fun _ => ⟨rfl, rfl, rfl, rfl, rfl, rfl⟩

end MqttClient
