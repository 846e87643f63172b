import MqttClient.Client.Traversal
import MqttClient.Session.Runs

/-! # What leaves the subscriptions alone

Subscribing and unsubscribing change the table of handlers; everything else is
a bystander to it. A property of the table and of the subscriptions on record
is therefore kept by a whole operation if it is kept by the calls that handlers
make during the operation.
-/

namespace MqttClient

open Effect Program

/-- The subscription that a call asks for. -/
def Call.subscription : Call → Option MessageHandler
  | .subscribe (some topicName) topicNameLen qos (some applicationHandler) data =>
      some ⟨some topicName, topicNameLen, qos, some applicationHandler, data⟩
  | _ => none

/-- The subscriptions on record: those whose call has returned `SUCCESS` and
whose filter has not been unsubscribed since. -/
def Trace.live : Trace → Multiset MessageHandler
  | [] => 0
  | .leave (.call c) .success :: t =>
      match c.subscription with
      | some h => h ::ₘ live t
      | none => live t
  | .unsubscribed topicFilter :: t => (live t).filter fun h => !h.hasFilter topicFilter
  | _ :: t => live t

def Frame.slot? : Frame → Option Nat
  | .subscribing slot => some slot
  | _ => none

/-- The slots that the subscribe calls in progress are going to fill. -/
def World.pendingSlots (w : World) : List Nat := w.stack.filterMap Frame.slot?

/-- A step that leaves the subscriptions alone. -/
structure Bystander (s t : World) : Prop where
  messageHandlers : t.client.messageHandlers = s.client.messageHandlers
  live : t.trace.live = s.trace.live
  pendingSlots : t.pendingSlots = s.pendingSlots
  trace : ∃ ev, t.trace = ev ++ s.trace

/-- Events that neither open or close a frame nor end a subscription. -/
def Event.isPlain : Event → Bool
  | .enter _ | .leave _ _ | .unsubscribed _ => false
  | _ => true

/-- Frames that no subscription depends on. -/
def Frame.isPlain : Frame → Bool
  | .subscribing _ => false
  | .call c => c.subscription.isNone
  | _ => true

namespace Bystander

theorem refl (s : World) : Bystander s s := ⟨rfl, rfl, rfl, [], rfl⟩

theorem trans {s t u : World} (h : Bystander s t) (h' : Bystander t u) : Bystander s u := by
  obtain ⟨ev, htrace⟩ := h.trace
  obtain ⟨ev', htrace'⟩ := h'.trace
  exact ⟨h'.messageHandlers.trans h.messageHandlers, h'.live.trans h.live,
    h'.pendingSlots.trans h.pendingSlots, ev' ++ ev, by rw [htrace', htrace, List.append_assoc]⟩

/-- A change of what the table does not depend on. -/
theorem of_eq {s t : World} (htable : t.client.messageHandlers = s.client.messageHandlers)
    (htrace : t.trace = s.trace) : Bystander s t :=
  ⟨htable, by rw [htrace], by simp only [World.pendingSlots, World.stack, htrace], [], htrace⟩

/-- Plain events neither make nor end subscriptions. -/
theorem live_of_isPlain {e : Event} (h : e.isPlain = true) (t : Trace) :
    Trace.live (e :: t) = Trace.live t := by
  cases e <;> first | rfl | cases h

/-- Plain events are no frames. -/
theorem stack_of_isPlain {e : Event} (h : e.isPlain = true) (t : Trace) :
    Trace.stack (e :: t) = Trace.stack t := by
  cases e <;> first | rfl | cases h

theorem log {e : Event} (s : World) (h : e.isPlain = true) : Bystander s (s.log e) :=
  ⟨rfl, live_of_isPlain h _, congrArg (·.filterMap Frame.slot?) (stack_of_isPlain h _), [e], rfl⟩

theorem logged {s t : World} {e : Event}
    (hstate : t.client.messageHandlers = s.client.messageHandlers)
    (htrace : t.trace = e :: s.trace) (h : e.isPlain = true) : Bystander s t := by
  refine ⟨hstate, by rw [htrace, live_of_isPlain h], ?_, [e], htrace⟩
  simp only [World.pendingSlots, World.stack, htrace, stack_of_isPlain h]

theorem granted (s : World) (change : StateChange) (expected new : ClientState) :
    Bystander s (s.granted change expected new) := logged rfl rfl rfl

theorem refused (s : World) (change : StateChange) (expected new : ClientState) :
    Bystander s (s.refused change expected new) := log s rfl

theorem put (s : World) (new : ClientState) : Bystander s (s.put new) := logged rfl rfl rfl

theorem enter (s : World) {f : Frame} (h : f.slot? = none) : Bystander s (s.log (.enter f)) :=
  ⟨rfl, rfl, List.filterMap_cons_none h, [.enter f], rfl⟩

theorem slot?_of_isPlain {f : Frame} (h : f.isPlain = true) : f.slot? = none := by
  cases f <;> first | rfl | cases h

theorem leave {s : World} {f : Frame} {rest : List Frame} (rc : IotError)
    (hstack : s.stack = f :: rest) (h : f.isPlain = true) : Bystander s (s.log (.leave f rc)) := by
  refine ⟨rfl, ?_, ?_, [.leave f rc], rfl⟩
  · cases f with
    | call c =>
        have hc : c.subscription = none := Option.isNone_iff_eq_none.mp h
        cases rc <;> simp [Trace.live, hc]
    | _ => rfl
  · simp only [World.pendingSlots, World.stack_log_leave, hstack, List.tail_cons,
      List.filterMap_cons_none (slot?_of_isPlain h)]

/-- Whoever only exchanges bytes with the network is a bystander. -/
theorem of_quiet {s t : World} (h : Quiet s t) : Bystander s t := by
  obtain ⟨ev, htrace, hev⟩ := h.trace
  refine ⟨h.messageHandlers, ?_, by simp only [World.pendingSlots, h.stack_eq], ev, htrace⟩
  rw [htrace]
  clear htrace
  induction ev with
  | nil => rfl
  | cons e ev ih =>
      have he : e.isPlain = true := by
        have := hev e List.mem_cons_self
        cases e <;> first | rfl | cases this
      rw [List.cons_append, live_of_isPlain he]
      exact ih fun e' he' => hev e' (List.mem_cons_of_mem e he')

end Bystander

/-! ## Operations keep what bystanders keep -/

/-- Bystanders keep `I`, and the discipline lets them step. -/
structure KeptByBystanders (guar : World → World → Prop) (I : World → Prop) : Prop where
  keep : ∀ s t, Bystander s t → I s → I t
  guar : ∀ s t, Bystander s t → guar s t

section Operations

variable {allow : Policy} {guar : World → World → Prop} {I : World → Prop}

/-- The discipline in which nothing is asked of the program's questions. -/
abbrev observed (allow : Policy) (guar : World → World → Prop) : Discipline World Answer :=
  solo (fun _ _ => True) allow guar

/-- The program keeps `I` and returns to the calls that were in progress. -/
def Keeps {α : Type} (allow : Policy) (guar : World → World → Prop) (I : World → Prop) (p : M α) :
    Prop :=
  ∀ s, I s → wp (observed allow guar) p (fun _ t => I t ∧ t.stack = s.stack) s

theorem Keeps.bind {α β : Type} {p : M α} {g : α → M β} (hp : Keeps allow guar I p)
    (hg : ∀ a, Keeps allow guar I (g a)) : Keeps allow guar I (p >>= g) := by
  intro s hs
  rw [wp_bind]
  refine wp_mono (fun a t ht => ?_) (hp s hs)
  exact wp_mono (fun _ u hu => ⟨hu.1, hu.2.trans ht.2⟩) (hg a t ht.1)

theorem Keeps.pure {α : Type} (a : α) : Keeps allow guar I (pure a : M α) := fun _ hs => ⟨hs, rfl⟩

theorem Keeps.ite {α : Type} {c : Prop} [Decidable c] {p q : M α} (hp : Keeps allow guar I p)
    (hq : Keeps allow guar I q) : Keeps allow guar I (if c then p else q) := by
  split
  · exact hp
  · exact hq

/-- An answer changes nothing by itself. -/
theorem keeps_query (q : Query) : Keeps allow guar I (Program.query q : M (Answer q)) := by
  intro s hs
  rw [wp_query]
  exact ⟨trivial, fun _ _ => ⟨hs, rfl⟩⟩

variable (hI : KeptByBystanders guar I)

include hI

/-- Quiet programs keep whatever bystanders keep. -/
theorem keeps_of_isQuiet {α : Type} {p : M α} (h : IsQuiet p) : Keeps allow guar I p := fun s hs =>
  wp_quiet h (fun _ _ _ _ => trivial) (fun _ _ _ hu => hI.guar _ _ (.of_quiet hu))
    fun _ t ht => ⟨hI.keep s t (.of_quiet ht) hs, ht.stack_eq⟩

/-- One atomic step of a bystander. -/
theorem keeps_atomically {α : Type} {v : World → α} {f : World → World}
    (h : ∀ s, Bystander s (f s) ∧ (f s).stack = s.stack) :
    Keeps allow guar I (Program.atomically v f : M α) := by
  intro s hs
  rw [wp_atomically]
  exact ⟨hI.guar _ _ (h s).1, hI.keep _ _ (h s).1 hs, (h s).2⟩

/-- The client state is none of the bystanders' business. -/
theorem keeps_setClientState (change : StateChange) (expected new : ClientState) :
    Keeps allow guar I (setClientState change expected new) := by
  refine keeps_atomically hI fun s => ?_
  split
  · exact ⟨.granted s change expected new, rfl⟩
  · exact ⟨.refused s change expected new, rfl⟩

theorem keeps_putClientState (new : ClientState) : Keeps allow guar I (putClientState new) :=
  keeps_atomically hI fun s => ⟨.put s new, rfl⟩

theorem Keeps.framed {f : Frame} (hf : f.isPlain = true) {body : M IotError}
    (hbody : Keeps allow guar I body) : Keeps allow guar I (framed f body) := by
  intro s hs
  rw [wp_framed]
  have henter := Bystander.enter s (Bystander.slot?_of_isPlain hf)
  refine ⟨hI.guar _ _ henter, ?_⟩
  refine wp_mono (fun rc t ht => ?_) (hbody _ (hI.keep _ _ henter hs))
  have hstack : t.stack = f :: s.stack := ht.2
  have hleave := Bystander.leave rc hstack hf
  exact ⟨hI.guar _ _ hleave, hI.keep _ _ hleave ht.1, by simp [hstack]⟩

/-- Programs that keep it may be put together. -/
theorem sequences_keeps : Sequences fun _ p => Keeps allow guar I p where
  plain h := keeps_of_isQuiet hI h.isIo.isQuiet
  bind hp hg := hp.bind hg

theorem dispatches_keeps :
    Dispatches (fun f => f.isPlain = true) fun _ p => Keeps allow guar I p where
  toSequences := sequences_keeps hI
  delivered f hf := by
    refine keeps_atomically hI fun s => ?_
    obtain ⟨name, topic, payload, data, heq⟩ := hf s
    rw [heq]
    exact ⟨.log s rfl, rfl⟩
  framed hf hbody := Keeps.framed hI hf hbody
  io h := keeps_of_isQuiet hI h.isIo.isQuiet
  handled := (sequences_keeps hI).internalHandlePublish
    (fun _ _ _ => keeps_of_isQuiet hI (isQuiet_internalSendPacket _ _ _))
    (fun _ => keeps_atomically hI fun s => ⟨.of_eq rfl rfl, rfl⟩)
    fun _ => keeps_atomically hI fun s => ⟨.of_eq rfl rfl, rfl⟩

/-- The single steps of the client keep it. -/
theorem primitives_keeps :
    Primitives (fun f => f.isPlain = true) fun _ p => Keeps allow guar I p where
  toFrames := (dispatches_keeps hI).toFrames
  query q _ := keeps_query q
  emit e he := by
    have hplain : e.isPlain = true := by
      cases e <;> first | rfl | cases he
    exact keeps_atomically hI fun s => ⟨.log s hplain, Bystander.stack_of_isPlain hplain _⟩
  setState change expected new _ := keeps_setClientState hI change expected new
  putState new _ := keeps_putClientState hI new

/-! ## Dispatching packets -/

/-- The calls that handlers make keep `I`. -/
def CallsKeep (allow : Policy) (guar : World → World → Prop) (I : World → Prop)
    (call : Call → M IotError) : Prop :=
  ∀ c s, I s → allow.allowsCall s c →
    wp (observed allow guar) (call c) (fun _ t => I t ∧ t.stack = s.stack) s

variable {call : Call → M IotError} (hcall : CallsKeep allow guar I call)

omit hI in
theorem CallsKeep.application (hcall : CallsKeep allow guar I call) (fuel : Nat) :
    Keeps allow guar I (application fuel call) := by
  intro s hs
  refine wp_mono (fun _ t ht => ht.1) (wp_application (I := fun t => I t ∧ t.stack = s.stack) fuel
    (fun _ _ => trivial) (fun c t ht hallow => ?_) ⟨hs, rfl⟩)
  exact wp_mono (fun _ u hu => ⟨hu.1, hu.2.trans ht.2⟩) (hcall c t ht.1 hallow)

include hcall

/-- Delivering a message keeps it, if the handlers' calls do. -/
theorem keeps_internalDeliverMessage (fuel topicOff : Nat) (topicNameLen : UInt16) :
    Keeps allow guar I (internalDeliverMessage fuel call topicOff topicNameLen) :=
  (primitives_keeps hI).internalDeliverMessage (fun _ => rfl) (hcall.application fuel)
    (fun _ => keeps_setClientState hI _ _ _) topicOff topicNameLen

/-- So does a cycle of reading. -/
theorem keeps_internalCycleRead (fuel : Nat) (timer : TimerName) :
    Keeps allow guar I (internalCycleRead fuel call timer) :=
  (dispatches_keeps hI).internalCycleRead (keeps_internalDeliverMessage hI hcall fuel) timer

theorem keeps_internalWaitForRead (fuel : Nat) (packetType : MessageType) :
    Keeps allow guar I (internalWaitForRead fuel call packetType) :=
  (dispatches_keeps hI).internalWaitForRead (keeps_internalCycleRead hI hcall fuel) rfl

/-! ## Operations -/

/-- So do the operations, if entering and removing a handler do. -/
theorem composes_keeps (fuel : Nat) : Composes fuel call (Keeps allow guar I) :=
  (dispatches_keeps hI).composes (keeps_internalWaitForRead hI hcall fuel)

omit hcall in
/-- The rule for an operation with its own claim and release: `P` is what its
body needs, and `Φ` what it establishes where it succeeds. -/
theorem wp_exclusively_keeping {P Φ : World → Prop} {inProgress : ClientState} {body : M IotError}
    {onRefused : ClientState → IotError → M IotError} (hP : KeptByBystanders guar P)
    (hΦ : KeptByBystanders guar Φ) (hPI : ∀ s, P s → I s)
    (hbody : ∀ s, P s → wp (observed allow guar) body
      (fun rc t => I t ∧ t.stack = s.stack ∧ (rc = .success → Φ t)) s) {s : World} (hs : P s) :
    wp (observed allow guar) (exclusively inProgress body onRefused)
      (fun rc t => I t ∧ t.stack = s.stack ∧ (rc = .success → Φ t)) s := by
  have hclaim := Bystander.granted s .claim s.client.clientState inProgress
  apply wp_exclusively (hI.guar s s (.refl s)) ⟨hPI s hs, rfl, nofun⟩ ⟨hPI s hs, rfl, nofun⟩
    (hI.guar _ _ hclaim)
  intro _
  refine wp_mono (fun rc t ht => ?_) (hbody _ (hP.keep _ _ hclaim hs))
  obtain ⟨ht, hstack, hsuccess⟩ := ht
  rw [wp_setClientState]
  split
  next =>
    have hrelease := Bystander.granted t .release inProgress s.client.clientState
    refine ⟨hI.guar _ _ hrelease, hI.keep _ _ hrelease ht, hstack, ?_⟩
    simp only [ne_eq, not_true_eq_false, and_false, if_false]
    exact fun h => hΦ.keep _ _ hrelease (hsuccess h)
  next =>
    have hrelease := Bystander.refused t .release inProgress s.client.clientState
    refine ⟨hI.guar _ _ hrelease, hI.keep _ _ hrelease ht, hstack, ?_⟩
    split
    next => exact nofun
    next => exact fun h => hΦ.keep _ _ hrelease (hsuccess h)

omit hcall in
/-- Claim and release keep what the body keeps. -/
theorem keeps_exclusively {inProgress : ClientState} {body : M IotError}
    {onRefused : ClientState → IotError → M IotError} (hbody : Keeps allow guar I body) :
    Keeps allow guar I (exclusively inProgress body onRefused) := by
  intro s hs
  refine wp_mono (fun _ t ht => ⟨ht.1, ht.2.1⟩) (wp_exclusively_keeping hI hI hI (fun _ h => h)
    (fun t ht => ?_) hs)
  exact wp_mono (fun _ _ hu => ⟨hu.1, hu.2, fun _ => hu.1⟩) (hbody t ht)

/-! ## Calls -/

omit hcall in
theorem offTable_keeps : OffTable (fun f => f.isPlain = true) fun _ p => Keeps allow guar I p where
  toPrimitives := primitives_keeps hI
  io := (dispatches_keeps hI).io
  handled := (dispatches_keeps hI).handled
  prepare change expected := keeps_setClientState hI change expected _
  putBack := keeps_putClientState hI _
  change _ hf := keeps_atomically hI fun s =>
    ⟨.of_eq (hf s.client).messageHandlers rfl, rfl⟩

/-- An operation that is not on the table is a bystander. -/
theorem keeps_perform (fuel : Nat) {c : Call} (hc : c.isOnTable = false) :
    Keeps allow guar I (perform fuel call c) := by
  have hoff : OffTable (fun f => f.isPlain = true) fun _ p => Keeps allow guar I p :=
    offTable_keeps hI
  have hconnect (params : Option ConnectParams) : Keeps allow guar I (connect fuel call params) :=
    hoff.connect (hoff.connectFrom rfl (composes_keeps hI hcall fuel).handshake params)
  refine hoff.perform ?_ (hcall.application fuel) (keeps_internalCycleRead hI hcall fuel)
    hconnect c fun h => ?_
  · intro f hf
    cases f <;> first | rfl | cases hf
  · rw [hc] at h
    cases h

end Operations

end MqttClient
