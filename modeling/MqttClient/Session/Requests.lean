import MqttClient.Client.Filters
import MqttClient.Session.Acknowledgements

/-! # Requests in progress

A subscribe or an unsubscribe has made its request when its packet is sent, and
it is acknowledged when its wait has ended on a packet that grants it: of the
matching type, with its identifier and, in a SUBACK, with a QoS for its filter.
The client and the broker are in step if they hold the same filters once all
requests in progress have been answered, whatever the answers.
-/

namespace MqttClient

open Effect Program

/-- The frames in which a subscribe or an unsubscribe sends its packet. -/
def Frame.makesRequest : Frame → Bool
  | .subscribing _ | .call (.unsubscribe (some _) _) => true
  | _ => false

namespace Trace

/-- The calls in progress, each with what it has requested. -/
def requests : Trace → List (Frame × Option FilterChange)
  | [] => []
  | .enter f :: t => (f, none) :: requests t
  | .leave _ _ :: t => (requests t).tail
  | .sent packet :: t =>
      match requests t with
      | [] => []
      | (f, r) :: rest => (f, if f.makesRequest then filterChange packet else r) :: rest
  | _ :: t => requests t

/-- The packet that has just been read: its type, and what follows its length field. -/
def lastPacket : Trace → Option (MessageType × List UInt8)
  -- what is stored at offset 1 is the length field of a packet without a body
  | .received packetType :: .stored off _ :: .netRead .body _ .success bytes :: _ =>
      if off = 1 then none else some (packetType, bytes)
  | _ => none

/-- An acknowledgement grants this request: it has the request's identifier, and a
SUBACK has one return code, a QoS. -/
def grants (request : List UInt8) : MessageType × List UInt8 → Bool
  | (.suback, [high, low, code]) =>
      headerType (request.headD 0) = MessageType.subscribe.code &&
        packetIdentifier request = leadingUint16 [high, low] && code ≤ 2
  | (.unsuback, [high, low]) =>
      headerType (request.headD 0) = MessageType.unsubscribe.code &&
        packetIdentifier request = leadingUint16 [high, low]
  | _ => false

/-- The request sent before the wait in progress, if a wait is in progress. -/
def awaiting (t : Trace) : Option (List UInt8) :=
  match t.opened with
  | (.waiting _, .sent request :: _) :: _ => some request
  | _ => none

/-- The wait in progress has just read the packet that grants its request. -/
def isGranted (t : Trace) : Bool :=
  t.awaiting.any fun request => t.lastPacket.any (grants request)

/-- A filter that the broker holds when it has processed the requests that are
acknowledged, in the order in which they were sent: the wait of their frame has
ended on the packet that grants them. The flags say which of the frames in
progress are going to be acknowledged. -/
def holds (filter : List UInt8) : List Bool → Trace → Bool
  | _, [] => false
  | acks, .enter _ :: t => holds filter acks.tail t
  | acks, .leave _ rc :: t =>
      holds filter
        (false :: if rc = .success ∧ isGranted t = true then true :: acks.tail else acks) t
  | acks, .sent packet :: t =>
      if acks.head? = some true ∧ (stack t).head?.any Frame.makesRequest = true then
        match filterChange packet with
        | none => holds filter acks t
        | some (.subscribe f) => f = filter || holds filter acks t
        | some (.unsubscribe f) => f ≠ filter && holds filter acks t
      else holds filter acks t
  | acks, _ :: t => holds filter acks t

/-- The requests in progress belong to the calls in progress. -/
theorem map_fst_requests (t : Trace) : t.requests.map Prod.fst = t.stack := by
  induction t with
  | nil => rfl
  | cons e t ih =>
      cases e with
      | enter f => exact congrArg (f :: ·) ih
      | leave f rc => exact (List.map_tail ..).trans (congrArg List.tail ih)
      | sent packet =>
          change (requests (.sent packet :: t)).map Prod.fst = stack t
          rw [← ih, requests]
          cases requests t <;> rfl
      | _ => exact ih

end Trace

/-- The filters in the table, as they were sent. -/
def HandlerTable.filters (table : HandlerTable) : Set (List UInt8) :=
  {filter | ∃ h ∈ table.occupied, h.filter = filter}

namespace Filters

/-! ## What the frames in progress are going to change -/

/-- A frame that is acknowledged has made this request. -/
def answered (r : FilterChange) : List (Frame × Option FilterChange) → List Bool → Prop
  | (_, q) :: rest, ack :: acks => ack = true ∧ q = some r ∨ answered r rest acks
  | _, _ => False

/-- Nothing is answered when nothing is acknowledged. -/
theorem answered_nil (r : FilterChange) (requests : List (Frame × Option FilterChange)) :
    ¬ answered r requests [] := by
  cases requests <;> exact id

/-- A frame without a request passes its acknowledgement over. -/
theorem answered_none (r : FilterChange) (f : Frame) (rest : List (Frame × Option FilterChange))
    (acks : List Bool) : answered r ((f, none) :: rest) acks ↔ answered r rest acks.tail := by
  cases acks with
  | nil => cases rest <;> simp [answered]
  | cons ack acks => simp [answered]

/-- What is answered was requested by a frame in progress. -/
theorem mem_of_answered {r : FilterChange} {requests : List (Frame × Option FilterChange)}
    {acks : List Bool} (h : answered r requests acks) : ∃ f, (f, some r) ∈ requests := by
  induction requests generalizing acks with
  | nil => cases h
  | cons x rest ih =>
      cases acks with
      | nil => cases h
      | cons ack acks =>
          rcases h with ⟨-, hx⟩ | h
          · exact ⟨x.1, List.mem_cons.mpr (.inl (Prod.ext rfl hx.symm))⟩
          · obtain ⟨f, hf⟩ := ih h
            exact ⟨f, List.mem_cons_of_mem _ hf⟩

/-- What the broker holds if these are acknowledged, in terms of what the client holds. -/
def Matches (table : HandlerTable) (t : Trace) (acks acks' : List Bool) : Prop :=
  ∀ filter, t.holds filter acks = true ↔
    (filter ∈ table.filters ∧ ¬ answered (.unsubscribe filter) t.requests acks') ∨
      answered (.subscribe filter) t.requests acks'

/-- Once the frames in progress have been acknowledged or not, the client and the
broker hold the same filters. -/
def InStep (table : HandlerTable) (t : Trace) : Prop := ∀ acks, Matches table t acks acks

/-- The same, where the request of the innermost frame has just been granted. -/
def Granted (table : HandlerTable) (t : Trace) : Prop :=
  ∀ acks, Matches table t acks (true :: acks.tail)

/-- Entering a frame changes nothing on either side. -/
theorem InStep.enter {table : HandlerTable} {t : Trace} (h : InStep table t) (f : Frame) :
    InStep table (.enter f :: t) := by
  intro acks filter
  simp only [Trace.holds, Trace.requests, answered_none]
  exact h acks.tail filter

section Leaving

variable {table : HandlerTable} {t : Trace} {f : Frame} {q : Option FilterChange}
  {rest : List (Frame × Option FilterChange)} {rc : IotError}

/-- The innermost request is left unanswered where its acknowledgement is not one. -/
theorem answered_leave (hrequests : t.requests = (f, q) :: rest) (r : FilterChange)
    (acks : List Bool) : answered r t.requests (false :: acks) ↔ answered r rest acks := by
  rw [hrequests]
  simp [answered]

/-- What was requested in a frame is not acknowledged when the frame is left. -/
theorem InStep.leave (h : InStep table t) (hrequests : t.requests = (f, q) :: rest)
    (hparent : rc = .success → t.isGranted = true → ∀ x ∈ rest.head?, x.2 = none) :
    InStep table (.leave f rc :: t) := by
  intro acks filter
  have hanswered (r : FilterChange) : answered r rest
      (if rc = .success ∧ t.isGranted = true then true :: acks.tail else acks) ↔
        answered r rest acks := by
    split
    next hgranted =>
      cases rest with
      | nil => cases acks <;> exact Iff.rfl
      | cons x rest =>
          obtain ⟨g, p⟩ := x
          cases hparent hgranted.1 hgranted.2 (g, p) rfl
          simp only [answered_none, List.tail_cons]
    next => exact Iff.rfl
  simp only [Trace.holds, Trace.requests]
  rw [h _ filter, answered_leave hrequests, answered_leave hrequests, hanswered, hanswered,
    hrequests, List.tail_cons]

/-- A wait that ends on the packet that grants its request. -/
theorem InStep.granted (h : InStep table t) (hrequests : t.requests = (f, q) :: rest)
    (hgranted : t.isGranted = true) : Granted table (.leave f .success :: t) := by
  intro acks filter
  simp only [Trace.holds, Trace.requests, hgranted, and_self, if_true]
  rw [h _ filter, answered_leave hrequests, answered_leave hrequests, hrequests, List.tail_cons]

end Leaving

/-- Only a wait ends on a packet that grants a request. -/
theorem isGranted_eq_false {t : Trace} {f : Frame} {q : Option FilterChange}
    {rest : List (Frame × Option FilterChange)} (hrequests : t.requests = (f, q) :: rest)
    (hf : ∀ packetType, f ≠ .waiting packetType) : t.isGranted = false := by
  have hopened : t.opened.map Prod.fst = f :: rest.map Prod.fst := by
    rw [Trace.map_fst_opened, ← Trace.map_fst_requests, hrequests]
    rfl
  have hawaiting : t.awaiting = none := by
    unfold Trace.awaiting
    split
    next packetType request before older heq =>
      rw [heq] at hopened
      exact absurd (List.cons.inj hopened).1.symm (hf packetType)
    next => rfl
  rw [Trace.isGranted, hawaiting]
  rfl

/-- Events that are no requests of a frame in progress. -/
def Idle (E : Event → Prop) (t : Trace) : Prop :=
  (∀ e, E e → e.isInner = true) ∧
    (t.stack.head?.any Frame.makesRequest = false ∨ ∀ e, E e → e.isSent = false)

/-- Events that say nothing on requests change neither the requests nor what the broker holds.
-/
theorem idle_append {E : Event → Prop} {ev t : Trace} (h : Idle E t) (hev : ∀ e ∈ ev, E e) :
    Trace.requests (ev ++ t) = t.requests ∧
      ∀ acks filter, Trace.holds filter acks (ev ++ t) = t.holds filter acks := by
  obtain ⟨hinner, hsent⟩ := h
  induction ev with
  | nil => exact ⟨rfl, fun _ _ => rfl⟩
  | cons e ev ih =>
      have he := hev e List.mem_cons_self
      obtain ⟨hrequests, hholds⟩ := ih fun e' he' => hev e' (List.mem_cons_of_mem e he')
      cases e with
      | enter | leave => cases hinner _ he
      | sent packet =>
          have hstack : Trace.stack (ev ++ t) = t.stack := by
            rw [← Trace.map_fst_requests, hrequests, Trace.map_fst_requests]
          have hidle : t.stack.head?.any Frame.makesRequest = false :=
            hsent.resolve_right fun h => nomatch h _ he
          constructor
          · simp only [List.cons_append, Trace.requests, hrequests]
            rw [← Trace.map_fst_requests] at hidle
            split
            next heq => exact heq.symm
            next f r rest heq =>
              rw [heq] at hidle ⊢
              have hf : f.makesRequest = false := hidle
              simp [hf]
          · intro acks filter
            simp only [List.cons_append, Trace.holds, hstack, hidle, hholds]
            simp
      | _ => exact ⟨hrequests, hholds⟩

/-- Nor do they change whether table and broker match. -/
theorem Matches.append {table : HandlerTable} {E : Event → Prop} {ev t : Trace}
    {acks acks' : List Bool} (h : Matches table t acks acks') (hidle : Idle E t)
    (hev : ∀ e ∈ ev, E e) : Matches table (ev ++ t) acks acks' := by
  obtain ⟨hrequests, hholds⟩ := idle_append hidle hev
  intro filter
  rw [hrequests, hholds]
  exact h filter

/-! ### Requests -/

section Requests

variable {table : HandlerTable} {t : Trace} {f : Frame} {change : FilterChange}
  {rest : List (Frame × Option FilterChange)} {packet filter : List UInt8}

/-- Sending a request puts it on record in its frame. -/
theorem requests_sent (hrequests : t.requests = (f, none) :: rest)
    (hf : f.makesRequest = true) (hpacket : filterChange packet = some change) :
    Trace.requests (.sent packet :: t) = (f, some change) :: rest := by
  simp only [Trace.requests, hrequests, hf, hpacket, if_true]

/-- What the broker holds behind a request that is on its way depends on whether it will be
granted. -/
theorem holds_sent (hrequests : t.requests = (f, none) :: rest)
    (hf : f.makesRequest = true) (hpacket : filterChange packet = some change)
    (acks : List Bool) (x : List UInt8) :
    Trace.holds x acks (.sent packet :: t) = true ↔
      if acks.head? = some true then match change with
        | .subscribe filter => filter = x ∨ t.holds x acks = true
        | .unsubscribe filter => filter ≠ x ∧ t.holds x acks = true
      else t.holds x acks = true := by
  have hhead : t.stack.head?.any Frame.makesRequest = true := by
    rw [← Trace.map_fst_requests, hrequests]
    exact hf
  simp only [Trace.holds, hhead, and_true, hpacket]
  split
  next => cases change <;> simp
  next => rfl

/-- A SUBSCRIBE keeps table and broker in step, as its handler is still to come. -/
theorem InStep.subscribe (h : InStep table t) (hrequests : t.requests = (f, none) :: rest)
    (hf : f.makesRequest = true) (hpacket : filterChange packet = some (.subscribe filter)) :
    InStep table (.sent packet :: t) := by
  intro acks x
  rw [holds_sent hrequests hf hpacket, h acks x, requests_sent hrequests hf hpacket, hrequests,
    answered_none, answered_none]
  cases acks with
  | nil => cases rest <;> simp [answered]
  | cons ack acks =>
      cases ack with
      | true =>
          simp only [List.head?_cons, if_true, List.tail_cons, answered]
          grind
      | false => simp [answered]

/-- No subscribe to the filter is in progress. -/
theorem InStep.unsubscribe (h : InStep table t) (hrequests : t.requests = (f, none) :: rest)
    (hf : f.makesRequest = true) (hpacket : filterChange packet = some (.unsubscribe filter))
    (hother : ∀ x ∈ rest, x.2 ≠ some (.subscribe filter)) : InStep table (.sent packet :: t) := by
  intro acks x
  have hanswered : ∀ acks, ¬ answered (.subscribe filter) rest acks := by
    intro acks hacks
    obtain ⟨f, hmem⟩ := mem_of_answered hacks
    exact hother _ hmem rfl
  rw [holds_sent hrequests hf hpacket, h acks x, requests_sent hrequests hf hpacket, hrequests,
    answered_none, answered_none]
  cases acks with
  | nil => cases rest <;> simp [answered]
  | cons ack acks =>
      cases ack with
      | true =>
          have := hanswered acks
          simp only [List.head?_cons, if_true, List.tail_cons, answered]
          grind
      | false => simp [answered]

/-! ### Acknowledgements -/

/-- A free slot that is filled adds its filter. -/
theorem filters_set {slot : Nat} {h : MessageHandler} (hslot : slot < numSubscribeHandlers)
    (hfree : (table.slot slot).isFree = true) (hh : h.isFree = false) :
    (table.set slot h).filters = insert h.filter table.filters := by
  ext x
  simp only [HandlerTable.filters, HandlerTable.occupied_set hslot hfree hh, Multiset.mem_cons,
    Set.mem_ofPred_eq, Set.mem_insert_iff, exists_eq_or_imp, eq_comm (a := x)]

/-- What the broker holds when the frame that was granted its request is left. -/
theorem Granted.leave (ht : Granted table t) (hrequests : t.requests = (f, some change) :: rest)
    (hf : t.isGranted = false) (acks : List Bool) (x : List UInt8) :
    Trace.holds x acks (.leave f .success :: t) = true ↔
      (x ∈ table.filters ∧ ¬ (change = .unsubscribe x ∨ answered (.unsubscribe x) rest acks)) ∨
        (change = .subscribe x ∨ answered (.subscribe x) rest acks) := by
  simp only [Trace.holds, hf, Bool.false_eq_true, and_false, if_false]
  rw [ht _ x, hrequests, List.tail_cons]
  simp only [answered, true_and, Option.some.injEq]

/-- The slot is filled when the SUBACK has come. -/
theorem Granted.filled {slot : Nat} {h : MessageHandler} (ht : Granted table t)
    (hrequests : t.requests = (f, some (.subscribe h.filter)) :: rest) (hf : t.isGranted = false)
    (hslot : slot < numSubscribeHandlers) (hfree : (table.slot slot).isFree = true)
    (hh : h.isFree = false) (hother : ∀ x ∈ rest, x.2 ≠ some (.unsubscribe h.filter)) :
    InStep (table.set slot h) (.leave f .success :: t) := by
  intro acks x
  have hanswered : ¬ answered (.unsubscribe h.filter) rest acks := by
    intro hacks
    obtain ⟨f, hmem⟩ := mem_of_answered hacks
    exact hother _ hmem rfl
  rw [ht.leave hrequests hf, filters_set hslot hfree hh, Set.mem_insert_iff, Trace.requests,
    hrequests, List.tail_cons]
  grind

/-- Removing handlers takes their filter out of the table. -/
theorem filters_remove {topicFilter : CString}
    (hremoves : ∀ h ∈ table.occupied, h.hasFilter topicFilter = decide (h.filter = filter)) :
    (table.remove topicFilter).filters = table.filters \ {filter} := by
  ext x
  simp only [HandlerTable.filters, HandlerTable.occupied_remove, Multiset.mem_filter,
    Set.mem_ofPred_eq, Set.mem_sdiff, Set.mem_singleton_iff]
  constructor
  · rintro ⟨h, ⟨hmem, hkept⟩, rfl⟩
    rw [hremoves h hmem] at hkept
    exact ⟨⟨h, hmem, rfl⟩, by simpa using hkept⟩
  · rintro ⟨⟨h, hmem, rfl⟩, hne⟩
    exact ⟨h, ⟨hmem, by simpa [hremoves h hmem] using hne⟩, rfl⟩

/-- The slots are freed when the UNSUBACK has come. -/
theorem Granted.removed {topicFilter : CString} (ht : Granted table t)
    (hrequests : t.requests = (f, some (.unsubscribe filter)) :: rest) (hf : t.isGranted = false)
    (hremoves : ∀ h ∈ table.occupied, h.hasFilter topicFilter = decide (h.filter = filter)) :
    InStep (table.remove topicFilter) (.leave f .success :: t) := by
  intro acks x
  rw [ht.leave hrequests hf, filters_remove hremoves, Set.mem_sdiff, Set.mem_singleton_iff,
    Trace.requests, hrequests, List.tail_cons]
  grind

end Requests

end Filters

end MqttClient
