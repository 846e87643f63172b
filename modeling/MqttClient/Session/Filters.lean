import MqttClient.Session.Callbacks
import MqttClient.Session.Grants

/-! # The filters of the client and of the broker

The broker knows a filter by the bytes in the packets, the client by the text
in its table. The two hold the same filters as long as no length cuts a text
short, no two requests for one filter cross, and each acknowledgement that comes
grants the request that is being waited for.
-/

namespace MqttClient

open Effect Program

/-- The client holds the filters that the broker holds when it has processed all
requests that have been acknowledged. -/
def World.SameFilters (w : World) : Prop :=
  ∀ filter, filter ∈ w.client.messageHandlers.filters ↔ w.trace.holds filter [] = true

/-- What receives a message, and what an unsubscribe in progress is about to
remove, depends on the bytes that were sent. -/
structure World.DecidesByFilter (w : World) : Prop where
  receives : ∀ h ∈ w.client.messageHandlers.occupied, ∀ topicName topicNameLen,
    h.receives topicName topicNameLen = filterReceives h.filter topicName topicNameLen
  removes : ∀ topicFilter topicFilterLen,
    .call (.unsubscribe (some topicFilter) topicFilterLen) ∈ w.stack →
      ∀ h ∈ w.client.messageHandlers.occupied, h.hasFilter topicFilter =
        decide (h.filter = memcpy topicFilter.bytes topicFilterLen.toNat)

/-- An unsubscribe of the filter of this slot. -/
def Frame.unsubscribes (h : MessageHandler) : Frame → Bool
  | .call (.unsubscribe (some topicFilter) _) => h.hasFilter topicFilter
  | _ => false

/-- The application initializes the client once, and a message handler returns in
the state in which it was called. No length is shorter than the text. A
subscribe takes a slot of its own, and no unsubscribe of its filter is in
progress; an unsubscribe finds its text only with its own bytes, and no
subscribe to them is in progress. -/
def namesWholeFilters : (q : Query) → World → Answer q → Bool := fun q =>
  match q with
  | .application => fun w (next : Option Call) =>
      match next with
      | none => !w.inHandler || w.client.clientState = .connectedWaitForCbReturn
      | some c =>
          !c.isInit &&
          (c.subscription.all fun h => h.isWhole && !w.stack.any (·.unsubscribes h) &&
            !w.pendingSlots.contains w.client.messageHandlers.getFreeMessageHandlerIndex) &&
          match c with
          | .unsubscribe (some topicFilter) topicFilterLen =>
              let filter := memcpy topicFilter.bytes topicFilterLen.toNat
              topicFilter.text.length ≤ topicFilterLen.toNat &&
                w.client.messageHandlers.slots.all (fun h =>
                  !h.hasFilter topicFilter || h.filter = filter) &&
                !w.trace.requests.any (·.2 = some (.subscribe filter))
          | _ => true
  | _ => fun _ _ => true

namespace Filters

abbrev policy : Policy := fun q w a =>
  namesWholeFilters q w a = true ∧ grantsInTurn q w a = true

/-! ## What holds throughout a run -/

/-- A request in progress is one that its frame makes. -/
def Agrees : Frame → Option FilterChange → Prop
  | .subscribing _, q => ∀ filter, q ≠ some (.unsubscribe filter)
  | .call (.unsubscribe (some topicFilter) topicFilterLen), q => ∀ change ∈ q,
      change = .unsubscribe (memcpy topicFilter.bytes topicFilterLen.toNat)
  | _, q => q = none

/-- A frame whose UNSUBSCRIBE is out is a call of unsubscribe, for the filter that was sent. -/
theorem Agrees.exists_unsubscribe {f : Frame} {filter : List UInt8}
    (h : Agrees f (some (.unsubscribe filter))) : ∃ topicFilter topicFilterLen,
      f = .call (.unsubscribe (some topicFilter) topicFilterLen) ∧
        filter = memcpy topicFilter.bytes topicFilterLen.toNat := by
  cases f with
  | subscribing slot => exact absurd rfl (h filter)
  | call c =>
      cases c with
      | unsubscribe topicFilter topicFilterLen =>
          cases topicFilter with
          | none => cases h
          | some topicFilter => exact ⟨_, _, rfl, FilterChange.unsubscribe.inj (h _ rfl)⟩
      | _ => cases h
  | _ => cases h

/-- A frame that makes no request has none out. -/
theorem Agrees.eq_none {f : Frame} {q : Option FilterChange} (h : Agrees f q)
    (hf : f.makesRequest = false) : q = none := by
  cases f with
  | subscribing slot => cases hf
  | call c =>
      cases c with
      | unsubscribe topicFilter topicFilterLen =>
          cases topicFilter with
          | none => exact h
          | some topicFilter => cases hf
      | _ => exact h
  | _ => exact h

/-- All lengths are as long as the texts, and an unsubscribe in progress finds
its text only with its own bytes. -/
structure Whole (w : World) : Prop where
  handlers : ∀ h ∈ w.client.messageHandlers.occupied, h.isWhole = true
  unsubscribes : ∀ topicFilter topicFilterLen,
    .call (.unsubscribe (some topicFilter) topicFilterLen) ∈ w.stack →
      topicFilter.text.length ≤ topicFilterLen.toNat ∧
        ∀ h ∈ w.client.messageHandlers.occupied, h.hasFilter topicFilter = true →
          h.filter = memcpy topicFilter.bytes topicFilterLen.toNat

/-- What counts as occupied is not free. -/
theorem isFree_of_mem_occupied {table : HandlerTable} {h : MessageHandler}
    (hmem : h ∈ table.occupied) : h.isFree = false := by
  simpa using (List.mem_filter.mp (Multiset.mem_coe.mp hmem)).2

/-- The same bytes make the same text. -/
theorem hasFilter_of_filter_eq {h : MessageHandler} {topicFilter : CString} {len : Nat}
    (hfree : h.isFree = false) (hwhole : h.isWhole = true) (hlen : topicFilter.text.length ≤ len)
    (heq : h.filter = memcpy topicFilter.bytes len) : h.hasFilter topicFilter = true := by
  obtain ⟨name, nameLen, qos, handler, data⟩ := h
  cases name with
  | none => cases hfree
  | some name => exact CString.strcmpEq_of_memcpy_eq (of_decide_eq_true hwhole) hlen heq

/-- Where every handler holds its whole filter, two handlers with one text have one filter. -/
theorem Whole.decidesByFilter {w : World} (h : Whole w) : w.DecidesByFilter where
  receives handler hmem :=
    MessageHandler.receives_eq_filterReceives (h.handlers _ hmem) (isFree_of_mem_occupied hmem)
  removes topicFilter topicFilterLen hstack handler hmem := by
    obtain ⟨hlen, hbytes⟩ := h.unsubscribes _ _ hstack
    rw [Bool.eq_iff_iff, decide_eq_true_iff]
    refine ⟨hbytes handler hmem, fun heq => ?_⟩
    exact hasFilter_of_filter_eq (isFree_of_mem_occupied hmem) (h.handlers _ hmem) hlen heq

/-- Each subscribe in progress has a slot of its own, and each request in progress
is one that its frame makes. -/
structure Orderly (w : World) : Prop extends Whole w where
  slots : ∀ i ∈ w.pendingSlots,
    i < numSubscribeHandlers ∧ (w.client.messageHandlers.slot i).isFree = true
  nodup : w.pendingSlots.Nodup
  agrees : ∀ x ∈ w.trace.requests, Agrees x.1 x.2

/-- The client and the broker are in step. -/
structure Tracks (w : World) : Prop extends Orderly w where
  inStep : InStep w.client.messageHandlers w.trace

/-- With no acknowledgement to come, the two sets of filters are one. -/
theorem Tracks.sameFilters {w : World} (h : Tracks w) : w.SameFilters := by
  intro filter
  rw [h.inStep [] filter]
  simp only [answered_nil, not_false_iff, and_true, or_false]

/-- The same requests are in progress. -/
abbrev Resumes (s t : World) : Prop := t.trace.requests = s.trace.requests

theorem Resumes.stack {s t : World} (h : Resumes s t) : t.stack = s.stack := by
  rw [World.stack, World.stack, ← Trace.map_fst_requests, h, Trace.map_fst_requests]

/-- Order is kept by what returns to the calls in progress and leaves the table alone. -/
theorem Orderly.resumes {s t : World} (hs : Orderly s) (hresumes : Resumes s t)
    (htable : t.client.messageHandlers = s.client.messageHandlers) : Orderly t := by
  refine ⟨⟨?_, ?_⟩, ?_, ?_, ?_⟩
  · rw [htable]
    exact hs.handlers
  · rw [htable, hresumes.stack]
    exact hs.unsubscribes
  · rw [htable, World.pendingSlots, hresumes.stack]
    exact hs.slots
  · rw [World.pendingSlots, hresumes.stack]
    exact hs.nodup
  · rw [hresumes]
    exact hs.agrees

/-- Events that say nothing on requests keep the two sides in step. -/
theorem Tracks.adds {E : Event → Prop} {s t : World} (hs : Tracks s) (hidle : Idle E s.trace)
    (h : Adds E s t) (htable : t.client.messageHandlers = s.client.messageHandlers) :
    Tracks t ∧ Resumes s t := by
  obtain ⟨ev, htrace, hev⟩ := h
  have hresumes : Resumes s t := by
    rw [Resumes, htrace]
    exact (idle_append hidle hev).1
  refine ⟨⟨hs.toOrderly.resumes hresumes htable, fun acks => ?_⟩, hresumes⟩
  rw [htable, htrace]
  exact (hs.inStep acks).append hidle hev

theorem agrees_none (f : Frame) : Agrees f none := by
  unfold Agrees
  split
  · exact nofun
  · exact nofun
  · rfl

/-- A frame that makes no request can be entered. -/
theorem Tracks.enter {s : World} {f : Frame} (hs : Tracks s) (hf : f.makesRequest = false) :
    Tracks (s.log (.enter f)) := by
  have hslot : f.slot? = none := by
    cases f <;> first | rfl | cases hf
  have hpending : (s.log (.enter f)).pendingSlots = s.pendingSlots :=
    List.filterMap_cons_none hslot
  refine ⟨⟨⟨hs.handlers, fun topicFilter len hstack => ?_⟩, ?_, ?_, fun x hx => ?_⟩,
    hs.inStep.enter f⟩
  · rcases List.mem_cons.mp hstack with rfl | hstack
    · cases hf
    · exact hs.unsubscribes topicFilter len hstack
  · rw [hpending]
    exact hs.slots
  · rw [hpending]
    exact hs.nodup
  · rcases List.mem_cons.mp hx with rfl | hx
    · exact agrees_none f
    · exact hs.agrees x hx

/-- Order does not depend on how a frame is left. -/
theorem Orderly.leave {t : World} (f : Frame) (rc : IotError) (ht : Orderly t) :
    Orderly (t.log (.leave f rc)) := by
  have hpending : ((t.log (.leave f rc)).pendingSlots).Sublist t.pendingSlots :=
    (List.tail_sublist _).filterMap _
  refine ⟨⟨ht.handlers, fun topicFilter len hmem => ?_⟩, fun i hi => ht.slots i
    (hpending.subset hi),
    ht.nodup.sublist hpending, fun x hx => ht.agrees x (List.mem_of_mem_tail hx)⟩
  exact ht.unsubscribes topicFilter len (List.mem_of_mem_tail hmem)

/-- A frame whose request, if it has made one, has not been granted, and in which
none is granted. -/
theorem Tracks.leave {t : World} {f : Frame} {q : Option FilterChange}
    {rest : List (Frame × Option FilterChange)} (rc : IotError) (ht : Tracks t)
    (hrequests : t.trace.requests = (f, q) :: rest)
    (hparent : rc = .success → t.trace.isGranted = true → ∀ x ∈ rest.head?, x.2 = none) :
    Tracks (t.log (.leave f rc)) ∧ (t.log (.leave f rc)).trace.requests = rest :=
  ⟨⟨ht.toOrderly.leave f rc, ht.inStep.leave hrequests hparent⟩, congrArg List.tail hrequests⟩

/-- Inside a frame that makes no request, in a state that is `ok`. -/
structure Inside (ok : ClientState → Prop) (w : World) : Prop where
  tracks : Tracks w
  state : ok w.client.clientState
  idle : w.stack.head?.any Frame.makesRequest = false

/-- The innermost call in progress has no request out. -/
theorem Inside.head_eq_none {ok : ClientState → Prop} {s : World} (hs : Inside ok s) :
    ∀ x ∈ s.trace.requests.head?, x.2 = none := by
  have hidle := hs.idle
  have hagrees := hs.tracks.agrees
  rw [World.stack, ← Trace.map_fst_requests] at hidle
  cases hrequests : s.trace.requests with
  | nil => simp
  | cons x rest =>
      rw [hrequests] at hidle hagrees
      rintro _ ⟨⟩
      exact (hagrees x List.mem_cons_self).eq_none hidle

/-- An inner step stays inside, in the state that it leaves. -/
theorem Inside.adds {ok P : ClientState → Prop} {s t : World} (hs : Inside ok s)
    (h : Adds (·.isInner = true) s t) (hstate : P t.client.clientState)
    (htable : t.client.messageHandlers = s.client.messageHandlers) :
    t.DecidesByFilter ∧ Inside P t ∧ Resumes s t := by
  obtain ⟨ht, hresumes⟩ := hs.tracks.adds ⟨fun _ => id, .inl hs.idle⟩ h htable
  refine ⟨ht.decidesByFilter, ⟨ht, hstate, ?_⟩, hresumes⟩
  rw [hresumes.stack]
  exact hs.idle

/-- When the application runs, the client and the broker hold the same filters. -/
abbrev pre : Query → World → Prop := fun q w => q = .application → w.SameFilters

abbrev discipline : Discipline World Answer := solo pre policy fun _ t => t.DecidesByFilter

/-- The program is kept inside a frame that makes no request, in a state that is `ok`. -/
abbrev KeptIn (ok : ClientState → Prop) {α : Type} (p : M α) : Prop :=
  Kept pre policy (fun _ t => t.DecidesByFilter) (Inside ok) Resumes p

/-- What is in step stays so along the operations that do not touch the table. -/
theorem steady (ok : ClientState → Prop) :
    Steady pre (fun _ t => t.DecidesByFilter) (Inside ok) Resumes (·.makesRequest = false) where
  refl _ := rfl
  trans _ _ _ h h' := h'.trans h
  pre q _ _ hq := by
    rintro rfl
    rcases hq with hq | hq <;> cases hq
  still s t hs h := hs.adds h.adds (h.clientState ▸ hs.state) h.messageHandlers
  enter f s hf hs := by
    have ht := hs.tracks.enter hf
    exact ⟨ht.decidesByFilter, ht, hs.state, hf⟩
  leave f rc s t _ hs ht h := by
    obtain ⟨hleave, hresumes⟩ := ht.tracks.leave rc h fun _ _ => hs.head_eq_none
    refine ⟨hleave.decidesByFilter, ⟨hleave, ht.state, ?_⟩, hresumes⟩
    rw [Resumes.stack hresumes]
    exact hs.idle

/-- Every operation off the table keeps the two sides in step. -/
theorem offTable :
    OffTable (·.makesRequest = false) fun _ p => KeptIn (fun _ => True) p :=
  (steady _).offTable (fun _ _ hs h => hs.adds h.adds trivial h.messageHandlers)
    fun _ _ hs h => hs.adds h.adds trivial h.messageHandlers

/-! ## Message handlers -/

section Calls

variable {fuel : Nat} {call : Call → M IotError}
  (hcall : ∀ c s, Tracks s → policy.allowsCall s c →
    wp discipline (call c) (fun _ t => Tracks t ∧ Resumes s t) s)

include hcall

/-- A message handler runs in the state for callbacks, and its calls keep the two sides in step.
-/
theorem keptIn_callHandler (handler : MessageHandler) (topicOff : Nat) (topicNameLen : UInt16) :
    KeptIn (· = .connectedWaitForCbReturn)
      (callHandler fuel call handler topicOff topicNameLen) := by
  intro s hs
  apply wp_callHandler (I := fun t => Inside (· = .connectedWaitForCbReturn) t ∧ Resumes s t)
    (J := fun name t => Tracks t ∧ t.trace.requests = (.handler name, none) :: s.trace.requests)
    fuel handler topicOff topicNameLen (fun _ _ ht _ => ht.1.sameFilters) _ _ _ ⟨hs, rfl⟩
  · intro name topic payload data t ht u
    have hu := (steady _).still t u ht.1 (.delivered name topic payload data)
    have henter := hu.2.1.tracks.enter (f := .handler name) rfl
    exact ⟨hu.1, henter.decidesByFilter, henter, congrArg (_ :: ·) (hu.2.2.trans ht.2)⟩
  · intro name c t ht hallow
    apply wp_mono _ (hcall c t ht.1 hallow)
    exact fun _ u hu => ⟨hu.1, hu.2.trans ht.2⟩
  · intro name t ht hreturn
    have hhandler : t.inHandler = true := by
      rw [World.inHandler, Trace.inHandler, ← Trace.map_fst_requests, ht.2]
      rfl
    have hstate : t.client.clientState = .connectedWaitForCbReturn := by
      simpa [namesWholeFilters, hhandler] using hreturn.1
    obtain ⟨hleave, hrequests⟩ := ht.1.leave .success ht.2 fun _ _ => hs.head_eq_none
    refine ⟨hleave.decidesByFilter, ⟨hleave, hstate, ?_⟩, hrequests⟩
    rw [Resumes.stack (s := s) hrequests]
    exact hs.idle

/-- So do all handlers that one message is delivered to. -/
theorem keptIn_deliverMessageLoop (topicOff : Nat) (topicNameLen : UInt16) (remaining : Nat) :
    KeptIn (· = .connectedWaitForCbReturn)
      (deliverMessageLoop fuel call topicOff topicNameLen remaining) := by
  intro s hs
  apply wp_deliverMessageLoop (I := fun t => Inside (· = .connectedWaitForCbReturn) t ∧ Resumes s t)
    fuel topicOff topicNameLen remaining (fun t ht => ht.1.tracks.decidesByFilter) _ ⟨hs, rfl⟩
  intro handler t ht
  apply wp_mono _ (keptIn_callHandler hcall handler topicOff topicNameLen t ht.1)
  exact fun _ u hu => ⟨hu.1, hu.2.trans ht.2⟩

/-- The handlers return in the state in which they were called, and the state of
before is put back. -/
theorem keptIn_internalDeliverMessage (state : ClientState) (topicOff : Nat)
    (topicNameLen : UInt16) :
    KeptIn (· = state) (internalDeliverMessage fuel call topicOff topicNameLen) := by
  intro s hs
  simp only [internalDeliverMessage, wp_bind, wp_getClientState, wp_setClientState, if_true]
  have hwait := hs.adds (P := (· = .connectedWaitForCbReturn))
    (t := s.granted .other s.client.clientState .connectedWaitForCbReturn)
    (adds_one rfl rfl) rfl rfl
  refine ⟨hs.tracks.decidesByFilter, hwait.1, ?_⟩
  apply wp_mono _ (keptIn_deliverMessageLoop hcall topicOff topicNameLen numSubscribeHandlers _
    hwait.2.1)
  intro _ t ht
  rw [if_pos ht.1.state]
  have hback := ht.1.adds (P := (· = state))
    (t := t.granted .other .connectedWaitForCbReturn s.client.clientState)
    (adds_one rfl rfl) hs.state
    rfl
  exact ⟨hback.1, hback.2.1, hback.2.2.trans (ht.2.trans hwait.2.2)⟩

/-- A message may arrive in any state. -/
theorem keptIn_deliver (topicOff : Nat) (topicNameLen : UInt16) :
    KeptIn (fun _ => True) (internalDeliverMessage fuel call topicOff topicNameLen) := by
  intro s hs
  apply wp_mono _ (keptIn_internalDeliverMessage hcall s.client.clientState topicOff topicNameLen s
    ⟨hs.tracks, rfl, hs.idle⟩)
  exact fun _ t ht => ⟨⟨ht.1.tracks, trivial, ht.1.idle⟩, ht.2⟩

/-- A wait puts everything back, also in a frame that has made its request. -/
theorem wp_internalWaitForRead (packetType : MessageType) {s : World} (hs : Tracks s) :
    wp discipline (internalWaitForRead fuel call packetType) (fun rc t =>
      ∃ u, Tracks u ∧ u.trace.requests = (.waiting packetType, none) :: s.trace.requests ∧
        u.client.clientState = s.client.clientState ∧
          t = u.log (.leave (.waiting packetType) rc)) s := by
  have henter := hs.enter (f := .waiting packetType) rfl
  rw [internalWaitForRead, wp_framed]
  refine ⟨henter.decidesByFilter, ?_⟩
  have hinside : Inside (· = s.client.clientState) (s.log (.enter (.waiting packetType))) :=
    ⟨henter, rfl, rfl⟩
  have hread : ∀ timer, KeptIn (· = s.client.clientState) (internalCycleRead fuel call timer) :=
    (steady _).dispatches.internalCycleRead
      (keptIn_internalDeliverMessage hcall s.client.clientState)
  apply wp_mono _ ((steady _).dispatches.waitForRead hread packetType _ hinside)
  intro rc t ht
  exact ⟨(ht.1.tracks.toOrderly.leave _ rc).decidesByFilter, t, ht.1.tracks, ht.2, ht.1.state, rfl⟩

end Calls

/-! ## Requests -/

/-- Sending does not change the table. -/
theorem decidesByFilter_of_sends {s t : World} (h : Sends s t) (hs : s.DecidesByFilter) :
    t.DecidesByFilter := by
  refine ⟨?_, ?_⟩
  · rw [h.client]
    exact hs.receives
  · rw [h.client, h.io.stack_eq]
    exact hs.removes

/-- What is on record of sending holds here too. -/
theorem wp_sends {α : Type} {p : M α} {Φ : α → World → Prop} {s : World} (h : OnlySends p)
    (hs : s.DecidesByFilter) (hwp : wp (observed policy fun _ _ => True) p Φ s) :
    wp discipline p Φ s := by
  refine h.transfer (D := observed policy fun _ _ => True) (E := discipline)
    (I := fun t => t.DecidesByFilter) ?_ (fun _ _ _ h => h) ?_ ?_ (fun _ _ => trivial) hwp hs
  · rintro q _ _ hq rfl
    cases hq
  · intro t u ht hu _
    exact ⟨trivial, decidesByFilter_of_sends hu ht, decidesByFilter_of_sends hu ht⟩
  · rintro t u ht rfl
    exact ⟨rfl, ht⟩

/-- In this frame, which has made this request; it has not been granted. -/
structure Requesting (f : Frame) (q : Option FilterChange)
    (rest : List (Frame × Option FilterChange))
    (clientState : ClientState) (w : World) : Prop where
  tracks : Tracks w
  requests : w.trace.requests = (f, q) :: rest
  clientState : w.client.clientState = clientState

/-- In this frame, whose request has just been granted. -/
structure Awarded (f : Frame) (change : FilterChange) (rest : List (Frame × Option FilterChange))
    (clientState : ClientState) (w : World) : Prop where
  orderly : Orderly w
  granted : Granted w.client.messageHandlers w.trace
  requests : w.trace.requests = (f, some change) :: rest
  clientState : w.client.clientState = clientState

section Requests

variable {f : Frame} {q : Option FilterChange} {rest : List (Frame × Option FilterChange)}
  {clientState : ClientState} {packet : List UInt8} {change : FilterChange}

/-- A request stays as it is while nothing is sent. -/
theorem Requesting.unsent {E : Event → Prop} {s t : World} (hs : Requesting f q rest clientState s)
    (h : Adds E s t) (hE : ∀ e, E e → e.isInner = true ∧ e.isSent = false)
    (hclient : t.client.messageHandlers = s.client.messageHandlers)
    (hstate : t.client.clientState = clientState) : Requesting f q rest clientState t := by
  obtain ⟨ht, hresumes⟩ := hs.tracks.adds
    ⟨fun e he => (hE e he).1, .inr fun e he => (hE e he).2⟩ h hclient
  exact ⟨ht, hresumes.trans hs.requests, hstate⟩

/-- Bytes that go out before the packet is complete change nothing. -/
theorem Requesting.writes {s t : World} (hs : Requesting f q rest clientState s) (h : Writes s t) :
    Requesting f q rest clientState t := by
  apply hs.unsent h.trace
  · intro e he
    cases e <;> first | exact ⟨rfl, rfl⟩ | cases he
  · rw [h.client]
  · rw [h.client]
    exact hs.clientState

/-- Where an unsubscribe is requested, no subscribe to the filter is in progress. -/
def Uncrossed (change : FilterChange) (rest : List (Frame × Option FilterChange)) : Prop :=
  match change with
  | .subscribe filter => ∀ x ∈ rest, x.2 ≠ some (.unsubscribe filter)
  | .unsubscribe filter => ∀ x ∈ rest, x.2 ≠ some (.subscribe filter)

/-- The packet makes the request of the frame. -/
theorem Requesting.sent {s : World} (hs : Requesting f none rest clientState s)
    (hf : f.makesRequest = true) (hpacket : filterChange packet = some change)
    (hagrees : Agrees f (some change)) (hother : Uncrossed change rest) :
    Requesting f (some change) rest clientState (s.log (.sent packet)) := by
  have hrequests : (s.log (.sent packet)).trace.requests = (f, some change) :: rest :=
    requests_sent hs.requests hf hpacket
  refine ⟨⟨⟨⟨hs.tracks.handlers, hs.tracks.unsubscribes⟩, hs.tracks.slots, hs.tracks.nodup, ?_⟩,
    ?_⟩, hrequests, hs.clientState⟩
  · intro x hx
    rw [hrequests] at hx
    rcases List.mem_cons.mp hx with rfl | hx
    · exact hagrees
    · exact hs.tracks.agrees x (hs.requests ▸ List.mem_cons_of_mem _ hx)
  · cases change with
    | subscribe filter => exact hs.tracks.inStep.subscribe hs.requests hf hpacket
    | unsubscribe filter => exact hs.tracks.inStep.unsubscribe hs.requests hf hpacket hother

variable {fuel : Nat} {call : Call → M IotError}
  (hcall : ∀ c s, Tracks s → policy.allowsCall s c →
    wp discipline (call c) (fun _ t => Tracks t ∧ Resumes s t) s)

include hcall

/-- Send the request in the transmit buffer, and go on when a packet has come: it
grants the request, or cannot be taken apart. -/
theorem wp_request {packetType : MessageType} {len : Nat} {next : M IotError}
    {Φ : IotError → World → Prop} {s : World} (hs : Requesting f none rest clientState s)
    (hf : f.makesRequest = true) (htype : packetType.isGrant = true)
    (hpacket : filterChange (s.client.writeBuf.load 0 len) = some change)
    (hagrees : Agrees f (some change)) (hother : Uncrossed change rest)
    (hnext : ∀ t, Orderly t →
      (t.client.takesApart packetType = true → Awarded f change rest clientState t) →
      (t.client.takesApart packetType = false → Requesting f (some change) rest clientState t) →
        wp discipline next Φ t)
    (hfail : ∀ rc q t, rc ≠ .success → Requesting f q rest clientState t → Φ rc t) :
    wp discipline (internalSendPacket fuel len .command >>= fun rc => onSuccess rc
      (internalWaitForRead fuel call packetType >>= fun rc => onSuccess rc next)) Φ s := by
  rw [wp_bind]
  apply wp_mono _ (wp_sends (onlySends_internalSendPacket _ _ _) hs.tracks.decidesByFilter
    (wp_internalSendPacket_sent fuel len .command s))
  intro rc t ht
  rw [wp_onSuccess]
  refine ⟨fun hrc => ?_, fun hrc => hfail rc _ t hrc (hs.writes (ht.2 hrc))⟩
  obtain ⟨u, hwrites, rfl⟩ := ht.1 hrc
  have hsent := (hs.writes hwrites).sent hf hpacket hagrees hother
  rw [wp_bind]
  apply wp_mono _ (wp_and_returns (wp_internalWaitForRead hcall packetType hsent.tracks))
  rintro rc _ ⟨⟨v, hv, hrequests, hstate, rfl⟩, hret⟩
  have hstate' : v.client.clientState = clientState := hstate.trans hsent.clientState
  rw [hsent.requests] at hrequests
  -- where nothing has been granted, the request is still open
  have hopen : (rc = .success → v.trace.isGranted = false) →
      Requesting f (some change) rest clientState (v.log (.leave (.waiting packetType) rc)) := by
    intro hungranted
    obtain ⟨hleave, hleft⟩ := hv.leave rc hrequests fun hrc h => by
      rw [hungranted hrc] at h
      cases h
    exact ⟨hleave, hleft, hstate'⟩
  rw [wp_onSuccess]
  refine ⟨fun hrc => ?_, fun hrc => hfail rc _ _ hrc (hopen fun h => absurd h hrc)⟩
  obtain ⟨x, hgranted, heq⟩ := wp_returns (D := observed policy fun _ _ => True)
    (wp_internalWaitForRead_granted (fun _ _ _ h => h.2) htype fuel _) hret hrc
  have htrace : v.trace = x.trace := (List.cons.inj (congrArg World.trace heq)).2
  have hclient : v.client = x.client := by
    simpa only [World.client_log] using congrArg World.client heq
  rw [← htrace, ← hclient] at hgranted
  refine hnext _ (hv.toOrderly.leave _ rc) (fun hapart => ?_) fun hapart => ?_
  · have hleft : (v.log (.leave (.waiting packetType) rc)).trace.requests =
        (f, some change) :: rest := congrArg List.tail hrequests
    refine ⟨hv.toOrderly.leave _ rc, ?_, hleft, hstate'⟩
    rw [hrc]
    exact hv.inStep.granted hrequests (hgranted.trans hapart)
  · exact hopen fun _ => hgranted.trans hapart

/-! ### Subscribing -/

omit hcall in
/-- The frame of the request is the innermost one. -/
theorem Requesting.stack {s : World} (hs : Requesting f q rest clientState s) :
    s.stack = f :: rest.map Prod.fst := by
  rw [World.stack, ← Trace.map_fst_requests, hs.requests]
  rfl

omit hcall in
/-- An unsubscribe in progress is for another filter than that of a new handler. -/
theorem hasFilter_of_uncrossed {h : MessageHandler} {topicFilter : CString} {len : UInt16}
    {stack : List Frame} (hcross : stack.any (·.unsubscribes h) = false)
    (hmem : .call (.unsubscribe (some topicFilter) len) ∈ stack) :
      h.hasFilter topicFilter = false :=
  eq_false_of_ne_true (List.any_eq_false.mp hcross _ hmem)

omit hcall in
/-- Where no unsubscribe of the text is in progress, none of the bytes is requested. -/
theorem uncrossed_of_stack {h : MessageHandler} {s : World} (hs : Orderly s)
    (hrequests : s.trace.requests = (f, q) :: rest) (hfree : h.isFree = false)
    (hwhole : h.isWhole = true) (hcross : s.stack.any (·.unsubscribes h) = false) :
    Uncrossed (.subscribe h.filter) rest := by
  rintro ⟨f', q'⟩ hx rfl
  have hx' : (f', some (.unsubscribe h.filter)) ∈ s.trace.requests :=
    hrequests ▸ List.mem_cons_of_mem _ hx
  have hmem : f' ∈ s.stack := by
    rw [World.stack, ← Trace.map_fst_requests]
    exact List.mem_map_of_mem (f := Prod.fst) hx'
  obtain ⟨topicFilter, len, rfl, heq⟩ := (hs.agrees _ hx').exists_unsubscribe
  obtain ⟨hlen, -⟩ := hs.unsubscribes topicFilter len hmem
  have hfilter := hasFilter_of_filter_eq hfree hwhole hlen heq
  rw [hasFilter_of_uncrossed hcross hmem] at hfilter
  cases hfilter

omit hcall in
/-- Filling a free slot with a handler that holds its whole filter keeps all of them whole. -/
theorem Whole.filled {slot : Nat} {h : MessageHandler} {s : World} (hs : Whole s)
    (hslot : slot < numSubscribeHandlers)
    (hslotfree : (s.client.messageHandlers.slot slot).isFree = true) (hfree : h.isFree = false)
    (hwhole : h.isWhole = true) (hcross : s.stack.any (·.unsubscribes h) = false) :
    Whole (s.onClient fun c => { c with messageHandlers := c.messageHandlers.set slot h }) := by
  have hoccupied := HandlerTable.occupied_set hslot hslotfree hfree
  refine ⟨fun handler hmem => ?_, fun topicFilter len hstack => ?_⟩
  · rw [World.client_onClient, hoccupied] at hmem
    rcases Multiset.mem_cons.mp hmem with rfl | hmem
    · exact hwhole
    · exact hs.handlers handler hmem
  · obtain ⟨hlen, hbytes⟩ := hs.unsubscribes topicFilter len hstack
    refine ⟨hlen, fun handler hmem hfilter => ?_⟩
    rw [World.client_onClient, hoccupied] at hmem
    rcases Multiset.mem_cons.mp hmem with rfl | hmem
    · rw [hasFilter_of_uncrossed hcross hstack] at hfilter
      cases hfilter
    · exact hbytes handler hmem hfilter

/-- When this frame returns, the client and the broker are in step. -/
structure Closes (f : Frame) (rest : List (Frame × Option FilterChange))
    (rc : IotError) (w : World) :
    Prop where
  tracks : Tracks (w.log (.leave f rc))
  requests : (w.log (.leave f rc)).trace.requests = rest
  notGranted : w.trace.isGranted = false

omit hcall in
/-- Waiting makes no request. -/
theorem ne_waiting_of_makesRequest (hf : f.makesRequest = true) (packetType : MessageType) :
    f ≠ .waiting packetType := by
  rintro rfl
  cases hf

omit hcall in
/-- The slot is filled when the SUBACK has come. -/
theorem Awarded.filled {slot : Nat} {h : MessageHandler} {s : World}
    (hs : Awarded (.subscribing slot) (.subscribe h.filter) rest clientState s)
    (hfree : h.isFree = false) (hwhole : h.isWhole = true)
    (hcross : s.stack.any (·.unsubscribes h) = false) :
    let t := s.onClient fun c => { c with messageHandlers := c.messageHandlers.set slot h }
    t.DecidesByFilter ∧ Closes (.subscribing slot) rest .success t := by
  intro t
  have hstack : s.stack = .subscribing slot :: rest.map Prod.fst := by
    rw [World.stack, ← Trace.map_fst_requests, hs.requests]
    rfl
  have hpending : s.pendingSlots = slot :: (rest.map Prod.fst).filterMap Frame.slot? := by
    rw [World.pendingSlots, hstack]
    rfl
  have hrest : (t.log (.leave (.subscribing slot) .success)).pendingSlots =
      (rest.map Prod.fst).filterMap Frame.slot? := by
    rw [World.pendingSlots, World.stack_log_leave, show t.stack = s.stack from rfl, hstack]
    rfl
  have hrequests : (t.log (.leave (.subscribing slot) .success)).trace.requests = rest :=
    congrArg List.tail hs.requests
  obtain ⟨hslot, hslotfree⟩ := hs.orderly.slots slot (hpending ▸ List.mem_cons_self)
  have hnodup := hs.orderly.nodup
  rw [hpending, List.nodup_cons] at hnodup
  have hnotGranted : s.trace.isGranted = false := isGranted_eq_false hs.requests (by simp)
  have ht : Whole t := hs.orderly.toWhole.filled hslot hslotfree hfree hwhole hcross
  refine ⟨ht.decidesByFilter, ⟨⟨⟨⟨ht.handlers, fun topicFilter len hmem => ?_⟩, ?_, ?_, ?_⟩, ?_⟩,
    hrequests, hnotGranted⟩⟩
  · exact ht.unsubscribes topicFilter len (List.mem_of_mem_tail hmem)
  · rw [hrest]
    intro i hi
    obtain ⟨hi', hifree⟩ := hs.orderly.slots i (hpending ▸ List.mem_cons_of_mem _ hi)
    -- each subscribe that waits has a slot of its own
    have hne : slot ≠ i := fun heq => hnodup.1 (heq ▸ hi)
    exact ⟨hi', (congrArg _ (s.client.messageHandlers.slot_set_of_ne h hne)).trans hifree⟩
  · rw [hrest]
    exact hnodup.2
  · rw [hrequests]
    exact fun x hx => hs.orderly.agrees x (hs.requests ▸ List.mem_cons_of_mem _ hx)
  · exact hs.granted.filled hs.requests hnotGranted hslot hslotfree hfree
      (uncrossed_of_stack hs.orderly hs.requests hfree hwhole hcross)

omit hcall in
/-- A request that fails leaves table and broker as they were. -/
theorem Requesting.failed {rc : IotError} {s : World} (hs : Requesting f q rest clientState s)
    (hf : f.makesRequest = true) (hrc : rc ≠ .success) : Closes f rest rc s :=
  have hleave := hs.tracks.leave rc hs.requests fun h => absurd h hrc
  ⟨hleave.1, hleave.2, isGranted_eq_false hs.requests (ne_waiting_of_makesRequest hf)⟩

/-- The SUBSCRIBE is sent, its SUBACK awaited, and the slot filled if it came. -/
theorem wp_requestSubscription {slot len : Nat} {h : MessageHandler} {s : World}
    (hs : Requesting (.subscribing slot) none rest clientState s)
    (hpacket : filterChange (s.client.writeBuf.load 0 (len % 2 ^ 32)) = some (.subscribe h.filter))
    (hfree : h.isFree = false) (hwhole : h.isWhole = true)
    (hcross : s.stack.any (·.unsubscribes h) = false) :
    wp discipline (requestSubscription fuel call slot len h)
      (fun rc t => t.DecidesByFilter ∧ Closes (.subscribing slot) rest rc t) s := by
  have hfail : ∀ rc q t, rc ≠ .success → Requesting (.subscribing slot) q rest clientState t →
      t.DecidesByFilter ∧ Closes (.subscribing slot) rest rc t :=
    fun rc q t hrc ht => ⟨ht.tracks.decidesByFilter, ht.failed rfl hrc⟩
  have hother := uncrossed_of_stack hs.tracks.toOrderly hs.requests hfree hwhole hcross
  apply wp_request hcall hs rfl rfl hpacket (fun _ => nofun) hother _ hfail
  intro t ht hawarded hopen
  simp only [wp_bind, wp_getClient]
  refine ⟨ht.decidesByFilter, ?_⟩
  split
  next rc hrc =>
    exact hfail rc _ t ((reportsErrors_deserializeSuback _ _ _).ne_success hrc)
      (hopen (by rw [Client.takesApart, hrc]; rfl))
  next hok =>
    have ht' := hawarded (by rw [Client.takesApart, hok]; rfl)
    have hstack : t.stack = s.stack := by
      rw [hs.stack, World.stack, ← Trace.map_fst_requests, ht'.requests]
      rfl
    have hfilled := ht'.filled hfree hwhole (by rwa [hstack])
    simp only [addSubscription, wp_bind, wp_modifyClient, pure_eq, wp_ret]
    exact ⟨hfilled.1, hfilled⟩

omit hcall in
/-- A free slot that nobody else has chosen can be subscribed. -/
theorem Tracks.enter_subscribing {slot : Nat} {s : World} (hs : Tracks s)
    (hslot : slot < numSubscribeHandlers)
    (hfree : (s.client.messageHandlers.slot slot).isFree = true) (hown : slot ∉ s.pendingSlots) :
    Requesting (.subscribing slot) none s.trace.requests s.client.clientState
      (s.log (.enter (.subscribing slot))) := by
  refine ⟨⟨⟨⟨hs.handlers, fun topicFilter len hmem => ?_⟩, fun i hi => ?_,
    List.nodup_cons.mpr ⟨hown, hs.nodup⟩, fun x hx => ?_⟩, hs.inStep.enter _⟩, rfl, rfl⟩
  · rcases List.mem_cons.mp hmem with heq | hmem
    · cases heq
    · exact hs.unsubscribes topicFilter len hmem
  · rcases List.mem_cons.mp hi with rfl | hi
    · exact ⟨hslot, hfree⟩
    · exact hs.slots i hi
  · rcases List.mem_cons.mp hx with rfl | hx
    · exact agrees_none _
    · exact hs.agrees x hx

/-- About to subscribe `h`, in a slot of its own. -/
structure Ready (h : MessageHandler) (w : World) : Prop extends Inside (fun _ => True) w where
  isFree : h.isFree = false
  isWhole : h.isWhole = true
  uncrossed : w.stack.any (·.unsubscribes h) = false
  own : w.client.messageHandlers.getFreeMessageHandlerIndex ∉ w.pendingSlots

omit hcall in
/-- A call that is ready stays so along inner steps. -/
theorem Ready.adds {h : MessageHandler} {s t : World} (hs : Ready h s)
    (hadds : Adds (·.isInner = true) s t)
    (htable : t.client.messageHandlers = s.client.messageHandlers) :
    t.DecidesByFilter ∧ Ready h t ∧ Resumes s t := by
  obtain ⟨hdecides, ht, hresumes⟩ := hs.toInside.adds hadds (P := fun _ => True) trivial htable
  refine ⟨hdecides, ⟨ht, hs.isFree, hs.isWhole, ?_, ?_⟩, hresumes⟩
  · rw [hresumes.stack]
    exact hs.uncrossed
  · rw [htable, World.pendingSlots, hresumes.stack]
    exact hs.own

omit hcall in
/-- Reading, writing and keeping time leave a call ready. -/
theorem wp_ready {α : Type} {p : M α} {h : MessageHandler} {s : World} (hp : IsIo p)
    (hs : Ready h s) : wp discipline p (fun _ t => Ready h t ∧ Resumes s t) s := by
  refine hp.wp (I := fun t => Ready h t ∧ Resumes s t) ?_ ?_ ?_ (fun _ _ => trivial) ⟨hs, rfl⟩
  · rintro q _ _ hq rfl
    cases hq
  · intro t u ht hu _
    obtain ⟨hdecides, hu', hresumes⟩ := ht.1.adds hu.adds hu.messageHandlers
    exact ⟨hdecides, hu', hresumes.trans ht.2⟩
  · rintro t u ht rfl
    exact ht

/-- Subscribing in the slot that was chosen keeps the two sides in step. -/
theorem wp_subscribeInSlot {len : Nat} {h : MessageHandler} {s : World} (hs : Ready h s)
    (hslot : s.client.messageHandlers.getFreeMessageHandlerIndex < numSubscribeHandlers)
    (hpacket : filterChange (s.client.writeBuf.load 0 (len % 2 ^ 32)) =
      some (.subscribe h.filter)) :
    wp discipline
      (subscribeInSlot fuel call s.client.messageHandlers.getFreeMessageHandlerIndex len h)
      (fun _ t => Tracks t ∧ Resumes s t) s := by
  have henter := hs.tracks.enter_subscribing hslot
    (s.client.messageHandlers.isFree_slot_getFreeMessageHandlerIndex hslot) hs.own
  rw [subscribeInSlot, wp_framed]
  refine ⟨henter.tracks.decidesByFilter, ?_⟩
  apply wp_mono _ (wp_requestSubscription hcall henter hpacket hs.isFree hs.isWhole hs.uncrossed)
  intro rc t ht
  exact ⟨ht.2.tracks.decidesByFilter, ht.2.tracks, ht.2.requests⟩

omit hcall in
/-- A serialized SUBSCRIBE lies in the transmit buffer. -/
theorem filterChange_subscribe {c : Client} {h : MessageHandler} {topicName : CString}
    {packetId : UInt16} (htopic : h.topicName = some topicName)
    (hmake : serializeSubscribe c.writeBufSize 0 packetId
      [(topicName.bytes, h.topicNameLen, h.qos)] = .ok packet) :
    filterChange ((c.writeBuf.store 0 packet).load 0 (packet.length % 2 ^ 32)) =
      some (.subscribe h.filter) := by
  rw [Nat.mod_eq_of_lt (length_serializeSubscribe_lt hmake), Memory.load_store,
    filterChange_serializeSubscribe hmake, MessageHandler.filter, htopic]

/-- The packet that is sent asks for the filter that the slot will hold. -/
theorem wp_internalSubscribe {topicName : CString} {topicNameLen : UInt16} {qos : QoS}
    {applicationHandler : HandlerName} {data : Nat} {s : World}
    (hs : Ready ⟨some topicName, topicNameLen, qos, some applicationHandler, data⟩ s) :
    wp discipline (internalSubscribe fuel call topicName topicNameLen qos applicationHandler data)
      (fun _ t => Tracks t ∧ Resumes s t) s := by
  simp only [internalSubscribe, wp_bind, wp_getClient]
  refine ⟨hs.tracks.decidesByFilter, ?_⟩
  apply wp_mono _ (wp_ready (isIo_countdown _ _) hs)
  intro _ t ht
  apply wp_mono _ (wp_ready isIo_getNextPacketId ht.1)
  intro txPacketId u hu
  have hresumes : Resumes s u := hu.2.trans ht.2
  apply wp_serialized hu.1.tracks.decidesByFilter
  · exact fun _ _ => ⟨hu.1.tracks, hresumes⟩
  · intro packet hmake v
    obtain ⟨hdecides, hv, -⟩ := hu.1.adds (t := v) (adds_of_eq rfl) rfl
    simp only [wp_bind, wp_getClient]
    refine ⟨hdecides, hdecides, ?_⟩
    split
    next => exact ⟨hv.tracks, hresumes⟩
    next hindex =>
      apply wp_mono _
        (wp_subscribeInSlot hcall hv (not_le.mp hindex) (filterChange_subscribe rfl hmake))
      exact fun _ _ hx => ⟨hx.1, hx.2.trans hresumes⟩

/-- A subscribe keeps the two sides in step, also where it is refused. -/
theorem wp_subscribe (topicName : Option CString) (topicNameLen : UInt16) (qos : QoS)
    (applicationHandler : Option HandlerName) (data : Nat) {s : World}
    (hs : Inside (fun _ => True) s)
    (hready : ∀ h, Call.subscription
      (.subscribe topicName topicNameLen qos applicationHandler data) =
      some h → Ready h s) :
    wp discipline (subscribe fuel call topicName topicNameLen qos applicationHandler data)
      (fun _ t => Inside (fun _ => True) t ∧ Resumes s t) s := by
  unfold MqttClient.subscribe
  split
  next topicName applicationHandler =>
    have hs' := hready _ rfl
    have hclaim :=
      hs'.adds (t := s.granted .claim s.client.clientState .connectedSubscribeInProgress)
      (adds_one rfl rfl) rfl
    apply wp_exclusively hs.tracks.decidesByFilter ⟨hs, rfl⟩ ⟨hs, rfl⟩ hclaim.1
    intro _
    apply wp_mono _ (wp_internalSubscribe hcall hclaim.2.1)
    intro bodyRc t ht
    have hresumes : Resumes s t := ht.2.trans hclaim.2.2
    have hinside : Inside (fun _ => True) t := ⟨ht.1, trivial, hresumes.stack ▸ hs.idle⟩
    apply wp_mono _ (offTable.setClientState _ _ _ t hinside)
    exact fun _ _ hu => ⟨hu.1, hu.2.trans hresumes⟩
  next => exact ⟨hs, rfl⟩

/-! ### Unsubscribing -/

omit hcall in
/-- An unsubscribe can be entered if the bytes that it sends are those of the handlers it
removes. -/
theorem Tracks.enter_unsubscribe {topicFilter : CString} {len : UInt16} {s : World} (hs : Tracks s)
    (hlen : topicFilter.text.length ≤ len.toNat)
    (hbytes : ∀ h ∈ s.client.messageHandlers.occupied, h.hasFilter topicFilter = true →
      h.filter = memcpy topicFilter.bytes len.toNat) :
    Requesting (.call (.unsubscribe (some topicFilter) len)) none s.trace.requests
      s.client.clientState (s.log (.enter (.call (.unsubscribe (some topicFilter) len)))) := by
  refine ⟨⟨⟨⟨hs.handlers, fun topicFilter' len' hmem => ?_⟩, hs.slots, hs.nodup, fun x hx => ?_⟩,
    hs.inStep.enter _⟩, rfl, rfl⟩
  · rcases List.mem_cons.mp hmem with heq | hmem
    · cases heq
      exact ⟨hlen, hbytes⟩
    · exact hs.unsubscribes topicFilter' len' hmem
  · rcases List.mem_cons.mp hx with rfl | hx
    · exact agrees_none _
    · exact hs.agrees x hx

omit hcall in
/-- The slots are freed when the UNSUBACK has come. -/
theorem Awarded.removed {topicFilter : CString} {len : UInt16} {s : World}
    (hs : Awarded (.call (.unsubscribe (some topicFilter) len))
      (.unsubscribe (memcpy topicFilter.bytes len.toNat)) rest clientState s) :
    (s.withoutSubscription topicFilter).DecidesByFilter ∧
      Closes (.call (.unsubscribe (some topicFilter) len)) rest .success
        (s.withoutSubscription topicFilter) := by
  let t := s.withoutSubscription topicFilter
  have hstack : s.stack = .call (.unsubscribe (some topicFilter) len) :: rest.map Prod.fst := by
    rw [World.stack, ← Trace.map_fst_requests, hs.requests]
    rfl
  have hkept : ∀ h ∈ t.client.messageHandlers.occupied,
      h ∈ s.client.messageHandlers.occupied := by
    intro h hmem
    change h ∈ (s.client.messageHandlers.remove topicFilter).occupied at hmem
    rw [HandlerTable.occupied_remove] at hmem
    exact Multiset.mem_of_mem_filter hmem
  have hwhole : Whole t := by
    refine ⟨fun h hmem => hs.orderly.handlers h (hkept h hmem), fun topicFilter' len' hmem => ?_⟩
    obtain ⟨hlen, hbytes⟩ := hs.orderly.unsubscribes topicFilter' len' hmem
    exact ⟨hlen, fun h hmem => hbytes h (hkept h hmem)⟩
  -- the handlers that are freed are those of the filter in the request
  have hremoves : ∀ h ∈ s.client.messageHandlers.occupied, h.hasFilter topicFilter =
      decide (h.filter = memcpy topicFilter.bytes len.toNat) := by
    apply hs.orderly.decidesByFilter.removes topicFilter len
    rw [hstack]
    exact List.mem_cons_self
  have hpending : (t.log (.leave (.call (.unsubscribe (some topicFilter) len))
      .success)).pendingSlots = s.pendingSlots := by
    rw [World.pendingSlots, World.stack_log_leave, World.pendingSlots,
      show t.stack = s.stack from rfl, hstack]
    rfl
  have hnotGranted : t.trace.isGranted = false :=
    isGranted_eq_false (t := t.trace) hs.requests (by simp)
  have hev : ∀ e ∈ [Event.unsubscribed topicFilter], e.isInner = true ∧ e.isSent = false := by
    simp [Event.isInner, Event.isSent]
  have hgranted : Granted s.client.messageHandlers t.trace := fun acks =>
    (hs.granted acks).append ⟨fun _ h => h.1, .inr fun _ h => h.2⟩ hev
  refine ⟨hwhole.decidesByFilter, ⟨⟨⟨⟨hwhole.handlers, fun topicFilter' len' hmem => ?_⟩, ?_,
    hpending ▸ hs.orderly.nodup, fun x hx => ?_⟩, ?_⟩, congrArg List.tail hs.requests, hnotGranted⟩⟩
  · exact hwhole.unsubscribes topicFilter' len' (List.mem_of_mem_tail hmem)
  · rw [hpending]
    -- a slot that a subscribe waits for stays free
    intro i hi
    obtain ⟨hslot, hfree⟩ := hs.orderly.slots i hi
    refine ⟨hslot, ?_⟩
    have hremoved := s.client.messageHandlers.slot_remove topicFilter i
    rw [MessageHandler.hasFilter_of_isFree hfree] at hremoved
    exact (congrArg _ hremoved).trans hfree
  · exact hs.orderly.agrees x (List.mem_of_mem_tail hx)
  · exact hgranted.removed hs.requests hnotGranted hremoves

omit hcall in
/-- What is put back after the body of a call. -/
theorem Closes.setState {rc : IotError} {s : World} (hs : Closes f rest rc s) (change : StateChange)
    (expected new : ClientState) : Closes f rest rc (s.granted change expected new) := by
  have hnotGranted : (s.granted change expected new).trace.isGranted = false := by
    change Option.any _ _ = false
    cases Trace.awaiting _ <;> rfl
  have hholds : ∀ acks x, Trace.holds x acks (.leave f rc ::
      (s.granted change expected new).trace) = Trace.holds x acks (.leave f rc :: s.trace) := by
    intro acks x
    simp only [Trace.holds, hnotGranted, hs.notGranted, Bool.false_eq_true, and_false, if_false]
    rfl
  refine ⟨⟨⟨⟨hs.tracks.handlers, hs.tracks.unsubscribes⟩, hs.tracks.slots, hs.tracks.nodup,
    hs.tracks.agrees⟩, fun acks x => ?_⟩, hs.requests, hnotGranted⟩
  exact (congrArg (· = true) (hholds acks x)).to_iff.trans (hs.tracks.inStep acks x)

omit hcall in
/-- A serialized UNSUBSCRIBE lies in the transmit buffer. -/
theorem filterChange_unsubscribe {c : Client} {topicFilter : List UInt8} {len packetId : UInt16}
    (hmake : serializeUnsubscribe c.writeBufSize 0 packetId [(topicFilter, len)] = .ok packet) :
    filterChange ((c.writeBuf.store 0 packet).load 0 (packet.length % 2 ^ 32)) =
      some (.unsubscribe (memcpy topicFilter len.toNat)) := by
  rw [Nat.mod_eq_of_lt (length_serializeUnsubscribe_lt hmake), Memory.load_store,
    filterChange_serializeUnsubscribe hmake]

omit hcall in
/-- Logging an inner event sends nothing. -/
theorem within_emit_unsent {e : Event} (hio : e.isIo = true) (hsent : e.isSent = false) :
    (emit e).Within (fun q => q.isIo) fun s t => Io s t ∧ Unsent s t :=
  within_modify fun s => ⟨⟨.log s hio, rfl, rfl⟩, adds_one rfl hsent⟩

omit hcall in
/-- Choosing an identifier sends nothing. -/
theorem within_getNextPacketId_unsent :
    getNextPacketId.Within (fun q => q.isIo) fun s t => Io s t ∧ Unsent s t :=
  within_atomically fun _ =>
    ⟨⟨⟨rfl, rfl, rfl, rfl, rfl, adds_of_eq rfl⟩, rfl, rfl⟩, adds_of_eq rfl⟩

omit hcall in
/-- What sends nothing makes no request. -/
theorem wp_unsent {α : Type} {p : M α} {s : World}
    (hp : p.Within (fun q => q.isIo) fun s t => Io s t ∧ Unsent s t)
    (hs : Requesting f q rest clientState s) :
    wp discipline p (fun _ t => Requesting f q rest clientState t) s := by
  refine hp.wp (I := Requesting f q rest clientState) ?_ ?_ ?_ (fun _ _ => trivial) hs
  · rintro q _ _ hq rfl
    cases hq
  · rintro t u ht ⟨hio, ev, htrace, hev⟩ _
    have hu : Requesting f q rest clientState u := by
      obtain ⟨ev', htrace', hev'⟩ := hio.adds
      have heq : ev' = ev := List.append_cancel_right (htrace'.symm.trans htrace)
      refine ht.unsent (E := fun e => e.isInner = true ∧ e.isSent = false)
        ⟨ev, htrace, fun e he => ⟨hev' e (heq ▸ he), hev e he⟩⟩ (fun _ => id) hio.messageHandlers ?_
      exact hio.clientState.trans ht.clientState
    exact ⟨hu.tracks.decidesByFilter, hu⟩
  · rintro t u ht rfl
    exact ht

/-- The UNSUBSCRIBE is sent, its UNSUBACK awaited, and the handlers removed if it came. -/
theorem wp_internalUnsubscribe {topicFilter : CString} {len : UInt16} {s : World}
    (hs : Requesting (.call (.unsubscribe (some topicFilter) len)) none rest clientState s)
    (hother : Uncrossed (.unsubscribe (memcpy topicFilter.bytes len.toNat)) rest) :
    wp discipline (internalUnsubscribe fuel call topicFilter len)
      (fun rc t => (t.DecidesByFilter ∧
        Closes (.call (.unsubscribe (some topicFilter) len)) rest rc t) ∧
        t.client.clientState = clientState) s := by
  -- without an acknowledgement, the request closes as failed
  have hfail : ∀ rc q t, rc ≠ .success →
      Requesting (.call (.unsubscribe (some topicFilter) len)) q rest clientState t →
      (t.DecidesByFilter ∧ Closes (.call (.unsubscribe (some topicFilter) len)) rest rc t) ∧
        t.client.clientState = clientState :=
    fun rc q t hrc ht => ⟨⟨ht.tracks.decidesByFilter, ht.failed rfl hrc⟩, ht.clientState⟩
  simp only [internalUnsubscribe, wp_bind, wp_getClient]
  refine ⟨hs.tracks.decidesByFilter, ?_⟩
  split
  next => exact hfail _ _ s (fun h => by cases h) hs
  next =>
    simp only [wp_bind]
    apply wp_mono _ (wp_unsent (within_emit_unsent rfl rfl) hs)
    intro _ t ht
    apply wp_mono _ (wp_unsent within_getNextPacketId_unsent ht)
    intro packetId u hu
    apply wp_serialized hu.tracks.decidesByFilter
    · intro rc hrc
      exact hfail _ _ _ ((reportsErrors_serializeUnsubscribe _ _ _ _).ne_success hrc) hu
    · intro packet hmake v
      have hv : Requesting (.call (.unsubscribe (some topicFilter) len)) none rest clientState v :=
        hu.unsent (E := fun _ => False) (adds_of_eq rfl) (fun _ h => h.elim) rfl hu.clientState
      refine ⟨hv.tracks.decidesByFilter, ?_⟩
      apply wp_request hcall hv rfl rfl (filterChange_unsubscribe hmake) _ hother _ hfail
      · intro change hchange
        exact (Option.some.inj hchange).symm
      · intro x hx hawarded hopen
        simp only [wp_bind, wp_getClient]
        refine ⟨hx.decidesByFilter, ?_⟩
        split
        next rc hrc =>
          exact hfail rc _ x ((reportsErrors_deserializeUnsuback _ _).ne_success hrc)
            (hopen (by rw [Client.takesApart, hrc]; rfl))
        next hok =>
          have hx' := hawarded (by rw [Client.takesApart, hok]; rfl)
          simp only [removeSubscription, wp_bind, wp_modify, pure_eq, wp_ret]
          exact ⟨hx'.removed.1, hx'.removed, hx'.clientState⟩

/-- An unsubscribe closes its request, also where it is refused. -/
theorem wp_unsubscribe {topicFilter : CString} {len : UInt16} {s : World}
    (hs : Requesting (.call (.unsubscribe (some topicFilter) len)) none rest clientState s)
    (hother : Uncrossed (.unsubscribe (memcpy topicFilter.bytes len.toNat)) rest) :
    wp discipline (unsubscribe fuel call (some topicFilter) len)
      (fun rc t => t.DecidesByFilter ∧
        Closes (.call (.unsubscribe (some topicFilter) len)) rest rc t)
      s := by
  have hclaim : Requesting (.call (.unsubscribe (some topicFilter) len)) none rest
      .connectedUnsubscribeInProgress
      (s.granted .claim s.client.clientState .connectedUnsubscribeInProgress) := by
    have hunsent := hs.tracks.adds (E := fun e => e.isInner = true ∧ e.isSent = false)
      ⟨fun _ h => h.1, .inr fun _ h => h.2⟩
      (t := s.granted .claim s.client.clientState .connectedUnsubscribeInProgress)
      (adds_one rfl ⟨rfl, rfl⟩) rfl
    exact ⟨hunsent.1, hunsent.2.trans hs.requests, rfl⟩
  have hrefused (rc : IotError) (hrc : rc ≠ .success) := hs.failed rfl hrc
  apply wp_exclusively hs.tracks.decidesByFilter
    ⟨hs.tracks.decidesByFilter, hrefused _ nofun⟩ ⟨hs.tracks.decidesByFilter, hrefused _ nofun⟩
    hclaim.tracks.decidesByFilter
  intro _
  apply wp_mono _ (wp_internalUnsubscribe hcall hclaim hother)
  rintro bodyRc t ⟨⟨hdecides, hcloses⟩, hstate⟩
  rw [wp_setClientState, if_pos hstate]
  have hback := hcloses.setState .release .connectedUnsubscribeInProgress s.client.clientState
  simp only [ne_eq, not_true_eq_false, and_false, if_false]
  exact ⟨⟨hdecides.receives, hdecides.removes⟩, ⟨hdecides.receives, hdecides.removes⟩, hback⟩

end Requests

/-! ## All calls -/

section Calls

variable {fuel : Nat} {call : Call → M IotError}

/-- Behind a call that has returned the client is inside the same calls as before. -/
theorem Inside.of_resumes {s t : World} (hs : Inside (fun _ => True) s) (ht : Tracks t)
    (hresumes : Resumes s t) : Inside (fun _ => True) t :=
  ⟨ht, trivial, hresumes.stack ▸ hs.idle⟩

/-- A subscribe that the policy allows is ready to choose a slot. -/
theorem ready_of_allowsCall {c : Call} {h : MessageHandler} {s : World}
    (hs : Inside (fun _ => True) (s.log (.enter (.call c)))) (hallow : policy.allowsCall s c)
    (hsub : c.subscription = some h) : Ready h (s.log (.enter (.call c))) := by
  have hfree : h.isFree = false := by
    unfold Call.subscription at hsub
    split at hsub
    · cases hsub
      rfl
    · cases hsub
  have hpolicy : (h.isWhole = true ∧ s.stack.any (·.unsubscribes h) = false) ∧
      s.client.messageHandlers.getFreeMessageHandlerIndex ∉ s.pendingSlots := by
    have hallow' : namesWholeFilters .application s (some c : Option Call) = true := hallow.1
    simp only [namesWholeFilters, hsub, Option.all_some, Bool.and_eq_true, Bool.not_eq_true',
      List.contains_eq_mem, decide_eq_false_iff_not] at hallow'
    exact hallow'.1.2
  refine ⟨hs, hfree, hpolicy.1.1, ?_, hpolicy.2⟩
  have hcall : Frame.unsubscribes h (.call c) = false := by
    cases c <;> first | rfl | cases hsub
  simpa [World.stack, Trace.stack, hcall] using hpolicy.1.2

variable (hcall : ∀ c s, Tracks s → policy.allowsCall s c →
  wp discipline (call c) (fun _ t => Tracks t ∧ Resumes s t) s)

include hcall

/-- The calls off the table keep the two sides in step. -/
theorem keptIn_perform {c : Call} (hc : c.isOnTable = false) :
    KeptIn (fun _ => True) (perform fuel call c) := by
  have hsteady := steady fun _ => True
  have hdeliver := @keptIn_deliver fuel call hcall
  apply offTable.perform _ _ (offTable.internalCycleRead hdeliver) _ c
  · intro h
    rw [hc] at h
    cases h
  · intro f hf
    cases f <;> first | rfl | cases hf
  · apply hsteady.application
    · exact fun s hs _ => hs.tracks.sameFilters
    · intro c s hs hallow
      apply wp_mono _ (hcall c s hs.tracks hallow)
      exact fun _ t ht => ⟨hs.of_resumes ht.1 ht.2, ht.2⟩
  · intro params
    apply offTable.connect
    apply offTable.connectFrom rfl
    have hwait : ∀ packetType, KeptIn (fun _ => True) (internalWaitForRead fuel call packetType) :=
      fun packetType => offTable.internalWaitForRead (offTable.internalCycleRead hdeliver) rfl
    exact (offTable.composes hwait).handshake

/-- A call that makes its request in a frame of its own, or none. -/
theorem wp_perform {c : Call} {s : World} (hs : Inside (fun _ => True) (s.log (.enter (.call c))))
    (hallow : policy.allowsCall s c) :
    wp discipline (perform fuel call c)
      (fun _ t => Inside (fun _ => True) t ∧ Resumes (s.log (.enter (.call c))) t)
      (s.log (.enter (.call c))) := by
  by_cases hc : c.isOnTable = true
  · cases c with
    | init params => cases hallow.1
    | subscribe topicName topicNameLen qos applicationHandler data =>
        apply wp_subscribe hcall topicName topicNameLen qos applicationHandler data hs
        exact fun h hsub => ready_of_allowsCall hs hallow hsub
    | unsubscribe topicFilter len =>
        cases topicFilter with
        | none => exact ⟨hs, rfl⟩
        | some topicFilter => cases hs.idle
    | _ => cases hc
  · exact keptIn_perform hcall (eq_false_of_ne_true hc) _ hs

/-- Every call that the policy allows does, in its frame. -/
theorem wp_call {c : Call} {s : World} (hs : Tracks s) (hallow : policy.allowsCall s c) :
    wp discipline (framed (.call c) (perform fuel call c))
      (fun _ t => Tracks t ∧ Resumes s t) s := by
  rw [wp_framed]
  by_cases hf : Frame.makesRequest (.call c) = true
  · cases c with
    | unsubscribe topicFilter len =>
        cases topicFilter with
        | none => cases hf
        | some topicFilter =>
            have hallow' : namesWholeFilters .application s
              (some (.unsubscribe (some topicFilter) len) : Option Call) = true := hallow.1
            simp only [namesWholeFilters, Bool.and_eq_true, decide_eq_true_iff, List.all_eq_true,
              Bool.or_eq_true, Bool.not_eq_true'] at hallow'
            obtain ⟨-, ⟨hlen, hbytes⟩, hother⟩ := hallow'
            have henter := hs.enter_unsubscribe hlen fun h hmem hfilter =>
              (hbytes h (List.mem_of_mem_filter (Multiset.mem_coe.mp hmem))).resolve_left
                (by simp [hfilter])
            refine ⟨henter.tracks.decidesByFilter, ?_⟩
            apply wp_mono _ (wp_unsubscribe hcall henter ?_)
            · exact fun rc t ht => ⟨ht.2.tracks.decidesByFilter, ht.2.tracks, ht.2.requests⟩
            · intro x hx heq
              exact List.any_eq_false.mp hother x hx (decide_eq_true heq)
    | _ => cases hf
  · have hf' := eq_false_of_ne_true hf
    have henter := hs.enter hf'
    refine ⟨henter.decidesByFilter, ?_⟩
    apply wp_mono _ (wp_perform hcall ⟨henter, trivial, hf'⟩ hallow)
    intro rc t ht
    obtain ⟨hleave, hrequests⟩ := ht.1.tracks.leave rc ht.2 fun _ hgranted => by
      rw [isGranted_eq_false ht.2 nofun] at hgranted
      cases hgranted
    exact ⟨hleave.decidesByFilter, hleave, hrequests⟩

end Calls

/-- Every call of the interface does, whatever its handlers call. -/
theorem wp_api (fuel : Nat) {c : Call} {s : World} (hs : Tracks s)
    (hallow : policy.allowsCall s c) :
    wp discipline (api fuel c) (fun _ t => Tracks t ∧ Resumes s t) s :=
  wp_recursive (P := fun c s => Tracks s ∧ policy.allowsCall s c)
    (Φ := fun _ s _ t => Tracks t ∧ Resumes s t) (fun _ _ _ => trivial)
    (fun _ _ hcall _ _ h => wp_call (fun c s hs hallow => hcall c s ⟨hs, hallow⟩) h.1 h.2)
    fuel c s ⟨hs, hallow⟩

/-- A client that has been initialized has no filters, nor has its broker. -/
theorem tracks_initialized (c : Client) (params : InitParams) :
    Tracks ⟨c.initialized params, [], []⟩ := by
  have hempty : ∀ h, h ∉ (c.initialized params).messageHandlers.occupied := by
    intro h hmem
    have hoccupied : (c.initialized params).messageHandlers.occupied = 0 :=
      HandlerTable.occupied_cleared _
    rw [hoccupied] at hmem
    exact Multiset.notMem_zero h hmem
  refine ⟨⟨⟨fun h hmem => absurd hmem (hempty h), nofun⟩, nofun, List.nodup_nil, nofun⟩,
    fun acks filter => ?_⟩
  simp [Trace.holds, Trace.requests, answered, HandlerTable.filters, hempty]

/-- Between the calls of a run the two sides are in step. -/
theorem tracks_of_atRest {w : World} (h : AtRest policy w) : Tracks w :=
  h.of_wp tracks_initialized fun fuel _ _ hs hallow =>
    wp_mono (fun _ _ ht => ht.1) (wp_api fuel hs hallow)

end Filters

open Filters

/-- Where no length cuts a text short and no two requests for one filter cross,
the client decides by the bytes that were sent, in every state of every run; and
it holds the filters that the broker holds, whenever the application runs. -/
theorem sameFilters_of_steps {w w' : World} {c : Call} {fuel : Nat} {p : M IotError}
    (h : AtRest policy w) (hallow : policy.allowsCall w c)
    (hsteps : Steps policy (api fuel c, w) (p, w')) :
    w.SameFilters ∧ w'.DecidesByFilter ∧ ∀ k, p = .ask .application k → w'.SameFilters := by
  have hw := tracks_of_atRest h
  have hwp := wp_api fuel hw hallow
  refine ⟨hw.sameFilters, ?_, ?_⟩
  · exact invariant_steps (D := discipline) (I := World.DecidesByFilter) (fun _ _ _ h => h) hwp
      hw.decidesByFilter hsteps
  · rintro k rfl
    exact wp_asks hwp hsteps rfl

/-- What a run is held to, as a test. -/
def keepsPolicy (q : Query) (w : World) (a : Answer q) : Bool :=
  namesWholeFilters q w a && grantsInTurn q w a

theorem policy_of_keepsPolicy (q : Query) (w : World) (a : Answer q)
    (h : keepsPolicy q w a = true) : policy q w a := by
  simpa [keepsPolicy] using h

theorem keepsPolicy_subscribedWorld :
    keepsPolicy .application freshWorld (some connectCall : Option Call) = true ∧
      freshWorld.keepsTo keepsPolicy 20 connectCall connackPacket [] = true ∧
      keepsPolicy .application connectedWorld (some (subscribeCall filterA) : Option Call) = true ∧
      connectedWorld.keepsTo keepsPolicy 20 (subscribeCall filterA) (subackPacket 2) [] = true ∧
      keepsPolicy .application subscribedWorld (some (.yield 1) : Option Call) = true ∧
      subscribedWorld.keepsTo keepsPolicy 20 (.yield 1) messagePacket [] = true := by
  decide +kernel

theorem sameFilters_subscribedWorld :
    subscribedWorld.SameFilters ∧
      (subscribedWorld.underway 20 (.yield 1) messagePacket [] 27).2.DecidesByFilter ∧
      ∀ k, (subscribedWorld.underway 20 (.yield 1) messagePacket [] 27).1 = .ask .application k →
        (subscribedWorld.underway 20 (.yield 1) messagePacket [] 27).2.SameFilters := by
  have hpolicy := policy_of_keepsPolicy
  obtain ⟨hconnect, hconnects, hsubscribe, hsubscribes, hyield, hyields⟩ :=
    keepsPolicy_subscribedWorld
  have hconnected : AtRest policy connectedWorld :=
    (AtRest.init blankClient sampleInitParams).call (hpolicy _ _ _ hconnect)
      (returns_perform hpolicy hconnects perform_connectCall)
  have hsubscribed : AtRest policy subscribedWorld :=
    hconnected.call (hpolicy _ _ _ hsubscribe)
      (returns_perform hpolicy hsubscribes perform_subscribeCall)
  exact sameFilters_of_steps hsubscribed (hpolicy _ _ _ hyield) (steps_underway 27 hpolicy hyields)

def filterAB : CString := ⟨[97, 98, 0], by decide⟩

/-- The first character of a filter has been subscribed, and all of it unsubscribed. -/
def mismatchedWorld : World :=
  ((connectedWorld.perform 20 (subscribeCall filterAB) (subackPacket 2) []).2.2.perform 20
    (.unsubscribe (some filterAB) 2) (packet [0xB0, 2, 0, 3]) []).2.2

theorem perform_subscribe_filterAB :
    (connectedWorld.perform 20 (subscribeCall filterAB) (subackPacket 2) []).1 = some .success ∧
      connectedWorld.isCalm 20 (subscribeCall filterAB) (subackPacket 2) = true ∧
      connectedWorld.stack.isEmpty = true := by
  decide +kernel

theorem perform_unsubscribe_filterAB :
    let w := (connectedWorld.perform 20 (subscribeCall filterAB) (subackPacket 2) []).2.2
    (w.perform 20 (.unsubscribe (some filterAB) 2) (packet [0xB0, 2, 0, 3]) []).1 = some .success ∧
      w.isCalm 20 (.unsubscribe (some filterAB) 2) (packet [0xB0, 2, 0, 3]) = true ∧
      w.stack.isEmpty = true := by
  decide +kernel

theorem mismatchedWorld_spec :
    mismatchedWorld.client.messageHandlers.occupied.card = 0 ∧
      mismatchedWorld.trace.holds [97] [] = true := by
  decide +kernel

/-- The broker still holds the filter `a`. -/
theorem not_sameFilters_mismatchedWorld : ¬ ∀ w, AtRest subscribesAtRest w → w.SameFilters := by
  intro h
  have hcalm := subscribesAtRest_allowsCalm
  obtain ⟨hsubscribed, hsubscribes, hrest⟩ := perform_subscribe_filterAB
  obtain ⟨hunsubscribed, hunsubscribes, hrest'⟩ := perform_unsubscribe_filterAB
  have hconnected : AtRest subscribesAtRest connectedWorld := .connected hcalm rfl
  have hpartial : AtRest subscribesAtRest
      (connectedWorld.perform 20 (subscribeCall filterAB) (subackPacket 2) []).2.2 :=
    hconnected.perform_calm hcalm (List.isEmpty_iff.mp hrest) hsubscribes hsubscribed
  have hmismatched : AtRest subscribesAtRest mismatchedWorld :=
    hpartial.perform_calm hcalm (List.isEmpty_iff.mp hrest') hunsubscribes hunsubscribed
  obtain ⟨hempty, hholds⟩ := mismatchedWorld_spec
  obtain ⟨handler, hmem, -⟩ := (h _ hmismatched [97]).mpr hholds
  rw [Multiset.card_eq_zero] at hempty
  rw [hempty] at hmem
  exact Multiset.notMem_zero _ hmem

end MqttClient