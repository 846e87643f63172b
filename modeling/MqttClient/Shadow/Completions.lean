import MqttClient.Shadow.Script
import MqttClient.Shadow.Disciplines

/-! # Each action is answered once

A record stays in the list while its callback runs and while its topics are
unsubscribed. Whatever comes in the meantime, another response or another look at the
timers, finds it there again.
-/

namespace MqttClient.Shadow

open Effect Program

/-! ## What the trace says about a record -/

/-- What an event tells of a record: an action waits in it, or its callback is called. -/
inductive Mark where
  | awaited
  | answered (status : AckStatus)
  deriving DecidableEq

def Event.mark? (i : AckIndex) : Event → Option Mark
  | .awaited j _ _ => if j = i then some .awaited else none
  | .answered j _ status => if j = i then some (.answered status) else none
  | _ => none

/-- A completion of the record is in progress that has not freed it. That of an expired
record frees it before it unsubscribes the topics, any other one afterwards. -/
def isCompleting (i : AckIndex) : List Frame → Bool
  | .releasing _ :: .completing _ .timeout :: rest => isCompleting i rest
  | .completing j _ :: rest => j = i || isCompleting i rest
  | _ :: rest => isCompleting i rest
  | [] => false

namespace World

/-- The newest of the events about the record. -/
def mark (w : World) (i : AckIndex) : Option Mark := w.trace.findSome? (Event.mark? i)

/-- The message is on one of the two topics on which the action in the record is answered. -/
def IsResponse (w : World) (m : MessageRef) (i : AckIndex) : Prop :=
  w.receivedTopic m = (w.ackWaitList i).target.accepted ∨
    w.receivedTopic m = (w.ackWaitList i).target.rejected

instance (w : World) (m : MessageRef) (i : AckIndex) : Decidable (w.IsResponse m i) :=
  inferInstanceAs (Decidable (_ ∨ _))

/-- A message with the token of a record in use is on a topic of that record. -/
def RespondsRightly (w : World) (m : MessageRef) : Prop :=
  ∀ i, (w.ackWaitList i).isFree = false → w.ackToken m = some (w.ackWaitList i).tokenText →
    w.IsResponse m i

instance (w : World) (m : MessageRef) : Decidable (w.RespondsRightly m) :=
  inferInstanceAs (Decidable (∀ _, _ → _ → _))

/-- This token is found in the message, with what the buffer and the tokens held before. -/
def Carries (w : World) (m : MessageRef) (token : List UInt8) : Prop :=
  ∃ buffer tokens,
    ({ w with shadowRxBuf := buffer, jsonTokenStruct := tokens } : World).ackToken m = some token

/-- The action in the record is completed on its own account: its timer is `due`, or a
message is being handled that is on one of its topics and carries its token. -/
def IsOwn (due : World → AckIndex → Prop) (w : World) (i : AckIndex) : AckStatus → Prop
  | .timeout => due w i
  | _ => ∃ m rest, w.stack = .ackStatus m :: rest ∧ w.IsResponse m i ∧
      w.Carries m (w.ackWaitList i).tokenText

/-- The step does not begin to connect. -/
def Continues (s t : World) : Prop :=
  ∀ params, t.trace ≠ .enter (.call (.connect params)) :: s.trace

/-- A completion begins only where none of the same record is in progress that has not
freed it, an action is put into a record only where the record is free, and a message
that carries the token of a record in use is on a topic of that record. -/
structure IsCautious (s t : World) : Prop where
  continues : s.Continues t
  completes : ∀ i status, t.trace = .enter (.completing i status) :: s.trace →
    isCompleting i s.stack = false
  awaits : ∀ i p isSticky, t.trace = .awaited i p isSticky :: s.trace →
    (s.ackWaitList i).isFree = true
  responds : ∀ m, t.trace = .enter (.ackStatus m) :: s.trace → s.RespondsRightly m

/-- A completion begins on the record's own account. The callback is called for an action
that waits and has not been answered; the record of an action stays as it is until it is
free, and that it becomes at the end of the completion in which the callback of the action
was called. -/
structure AnswersOnce (due : World → AckIndex → Prop) (s t : World) : Prop where
  begun : ∀ i status, t.trace = .enter (.completing i status) :: s.trace → s.IsOwn due i status
  called : ∀ i r status, t.trace = .answered i r status :: s.trace → s.mark i = some .awaited
  freed : ∀ i, (s.ackWaitList i).isFree = false → (t.ackWaitList i).isFree = true →
    ∃ status rest, s.stack = .completing i status :: rest ∧ s.mark i = some (.answered status)
  kept : ∀ i, (s.ackWaitList i).isFree = false → (t.ackWaitList i).isFree = false →
    t.ackWaitList i = s.ackWaitList i

/-- No record is in use, and nothing is in progress. -/
structure IsIdle (w : World) : Prop where
  free : ∀ i, (w.ackWaitList i).isFree = true
  stack_eq : w.stack = []

/-- What the stack and the trace say about the records in use. -/
structure IsConsistent (w : World) : Prop where
  held : ∀ i, isCompleting i w.stack = true → (w.ackWaitList i).isFree = false
  fresh : ∀ i, (w.ackWaitList i).isFree = false → isCompleting i w.stack = false →
    w.mark i = some .awaited
  callback : ∀ i, (w.ackWaitList i).isFree = false → ∃ name, (w.ackWaitList i).callback = some name

/-- Records that are being completed are left alone. -/
structure Leaves (s t : World) : Prop where
  stack_eq : t.stack = s.stack
  records : ∀ i, isCompleting i s.stack = true →
    t.ackWaitList i = s.ackWaitList i ∧ t.mark i = s.mark i

/-- Where nothing is in progress and no record is in use, all is consistent. -/
theorem IsIdle.isConsistent {w : World} (h : w.IsIdle) : w.IsConsistent where
  held := by
    intro i hcompleting
    rw [h.stack_eq] at hcompleting
    cases hcompleting
  fresh := by
    intro i hused
    rw [h.free i] at hused
    cases hused
  callback := by
    intro i hused
    rw [h.free i] at hused
    cases hused

variable {s t u : World} {i : AckIndex}

theorem Leaves.refl (s : World) : s.Leaves s := ⟨rfl, fun _ _ => ⟨rfl, rfl⟩⟩

theorem Leaves.trans (h : s.Leaves t) (h' : t.Leaves u) : s.Leaves u where
  stack_eq := h'.stack_eq.trans h.stack_eq
  records := by
    intro i hi
    obtain ⟨hrecord, hmark⟩ := h.records i hi
    obtain ⟨hrecord', hmark'⟩ := h'.records i (h.stack_eq ▸ hi)
    exact ⟨hrecord'.trans hrecord, hmark'.trans hmark⟩

end World

/-! ## Steps that do not concern the records -/

/-- Events that say nothing about a record and move no frame. -/
def Event.isAside : Event → Bool
  | .enter _ | .leave .. | .awaited .. | .answered .. => false
  | _ => true

/-- Events that stand aside mark no record. -/
theorem Event.mark?_of_isAside {e : Event} (he : e.isAside = true) (i : AckIndex) :
    e.mark? i = none := by
  cases e <;> first | rfl | cases he

def Part.isAside : Part → Bool
  | .acks | .tables => false
  | .event e => e.isAside
  | _ => true

/-- Frames that neither complete a record nor unsubscribe its topics. -/
def Frame.isAside : Frame → Bool
  | .completing .. | .releasing _ => false
  | _ => true

/-- Frames that stand aside complete no record. -/
theorem isCompleting_cons_of_isAside {f : Frame} (hf : f.isAside = true) (i : AckIndex)
    (rest : List Frame) : isCompleting i (f :: rest) = isCompleting i rest := by
  cases f <;> first | rfl | cases hf

namespace World

variable {s t : World} {i : AckIndex}

/-- The records are as before, and nothing is recorded about them. -/
def Bystands (s t : World) : Prop :=
  t.ackWaitList = s.ackWaitList ∧
    (t.trace = s.trace ∨ ∃ e : Event, e.isAside = true ∧ t.trace = e :: s.trace)

/-- The newest event that says something on a record says it. -/
theorem mark_cons {e : Event} (htrace : t.trace = e :: s.trace) (i : AckIndex) :
    t.mark i = (e.mark? i).or (s.mark i) := by
  rw [mark, htrace, List.findSome?_cons, mark]
  cases e.mark? i <;> rfl

/-- A step that stands aside leaves every record as it was marked. -/
theorem Bystands.mark_eq (h : s.Bystands t) (i : AckIndex) : t.mark i = s.mark i := by
  rcases h.2 with htrace | ⟨e, he, htrace⟩
  · rw [mark, htrace, mark]
  · rw [mark_cons htrace, Event.mark?_of_isAside he, Option.none_or]

theorem Bystands.stack_eq (h : s.Bystands t) : t.stack = s.stack := by
  rcases h.2 with htrace | ⟨e, he, htrace⟩
  · rw [stack, htrace, stack]
  · rw [stack, htrace, stack]
    cases e <;> first | rfl | cases he

/-- Such a step leaves the records of the calls in progress. -/
theorem Bystands.leaves (h : s.Bystands t) : s.Leaves t where
  stack_eq := h.stack_eq
  records := fun i _ => ⟨by rw [h.1], h.mark_eq i⟩

/-- It keeps records and trace consistent. -/
theorem Bystands.isConsistent (h : s.Bystands t) (hs : s.IsConsistent) : t.IsConsistent where
  held := by
    rw [h.stack_eq, h.1]
    exact hs.held
  fresh := by
    intro i
    rw [h.stack_eq, h.1, h.mark_eq]
    exact hs.fresh i
  callback := by
    rw [h.1]
    exact hs.callback

variable {due : World → AckIndex → Prop}

/-- A step that neither frees a record nor records anything about one. -/
theorem answersOnce_of_eq (hacks : t.ackWaitList = s.ackWaitList)
    (htrace : t.trace = s.trace ∨ ∃ e : Event, (∀ i, e.mark? i = none) ∧
      (∀ i status, e = .enter (.completing i status) → s.IsOwn due i status) ∧
        t.trace = e :: s.trace) :
    s.AnswersOnce due t := by
  refine ⟨fun i status h => ?_, fun i r status h => ?_, fun i hused hfree => ?_,
    fun i _ _ => by rw [hacks]⟩
  · rcases htrace with heq | ⟨e, -, hown, heq⟩
    · exact absurd (heq.symm.trans h) (List.ne_cons_self (l := s.trace))
    · exact hown i status (List.cons.inj (heq.symm.trans h)).1
  · rcases htrace with heq | ⟨e, hmark, -, heq⟩
    · exact absurd (heq.symm.trans h) (List.ne_cons_self (l := s.trace))
    · have hnone := hmark i
      rw [(List.cons.inj (heq.symm.trans h)).1, Event.mark?, if_pos rfl] at hnone
      cases hnone
  · rw [hacks, hused] at hfree
    cases hfree

/-- It answers nothing and frees nothing. -/
theorem Bystands.answersOnce (h : s.Bystands t) : s.AnswersOnce due t := by
  apply answersOnce_of_eq h.1
  refine h.2.imp id ?_
  rintro ⟨e, he, htrace⟩
  refine ⟨e, Event.mark?_of_isAside he, ?_, htrace⟩
  rintro i status rfl
  cases he

/-- A step that changes a part other than the records stands aside. -/
theorem bystands_of_changesTo {part : Part} (hpart : part.isAside = true)
    (h : s.ChangesTo part t) : s.Bystands t := by
  cases part with
  | event e => exact ⟨by rw [h]; rfl, .inr ⟨e, hpart, by rw [h]; rfl⟩⟩
  | version => exact ⟨by rw [h]; rfl, .inr ⟨.versionReset, rfl, by rw [h]; rfl⟩⟩
  | document | registry => rw [h.1]; exact ⟨rfl, .inl rfl⟩
  | acks | tables => cases hpart
  | _ => rw [h]; exact ⟨rfl, .inl rfl⟩

/-- Taking over the version of a response stands aside. -/
theorem bystands_withResponseVersion (m : MessageRef) (tokenCount : Nat) :
    s.Bystands (s.withResponseVersion m tokenCount) := by
  unfold withResponseVersion
  split
  next => exact ⟨rfl, .inl rfl⟩
  next v _ => exact ⟨rfl, .inr ⟨.versionTaken v, rfl, rfl⟩⟩

/-- So does taking over the version of a delta. -/
theorem bystands_withDeltaVersion (tokenCount : Nat) :
    s.Bystands (s.withDeltaVersion tokenCount) := by
  unfold withDeltaVersion
  split
  next => exact ⟨rfl, .inl rfl⟩
  next => exact ⟨rfl, .inr ⟨_, rfl, rfl⟩⟩

/-! ## Frames -/

theorem mark_log_enter (f : Frame) (i : AckIndex) : (s.log (.enter f)).mark i = s.mark i :=
  mark_cons (e := .enter f) rfl i

theorem mark_log_leave (f : Frame) (rc : IotError) (i : AckIndex) :
    (s.log (.leave f rc)).mark i = s.mark i :=
  mark_cons (e := .leave f rc) rfl i

/-- Entering a frame answers nothing, though completing may only begin for a record that is due.
-/
theorem answersOnce_enter {f : Frame}
    (hown : ∀ i status, f = .completing i status → s.IsOwn due i status) :
    s.AnswersOnce due (s.log (.enter f)) :=
  answersOnce_of_eq (t := s.log _) rfl
    (.inr ⟨_, fun _ => rfl, fun i status h => hown i status (Event.enter.inj h), rfl⟩)

/-- Leaving one answers nothing either. -/
theorem answersOnce_leave (s : World) (f : Frame) (rc : IotError) :
    s.AnswersOnce due (s.log (.leave f rc)) :=
  answersOnce_of_eq (t := s.log _) rfl (.inr ⟨_, fun _ => rfl, (fun _ _ h => by cases h), rfl⟩)

/-- The books agree with another stack on which the same completions are in progress. -/
theorem IsConsistent.restack (hs : s.IsConsistent) (hacks : t.ackWaitList = s.ackWaitList)
    (hmark : ∀ i, t.mark i = s.mark i)
    (hstack : ∀ i, isCompleting i t.stack = isCompleting i s.stack) : t.IsConsistent where
  held := by
    intro i
    rw [hstack, hacks]
    exact hs.held i
  fresh := by
    intro i
    rw [hstack, hacks, hmark]
    exact hs.fresh i
  callback := by
    rw [hacks]
    exact hs.callback

/-- A frame that completes no record may be entered. -/
theorem IsConsistent.enter (hs : s.IsConsistent) {f : Frame}
    (hf : ∀ i, isCompleting i (f :: s.stack) = isCompleting i s.stack) :
    (s.log (.enter f)).IsConsistent := hs.restack rfl (mark_log_enter f) hf

/-- It may be left as well. -/
theorem IsConsistent.leave (ht : t.IsConsistent) {f : Frame} (hstack : t.stack = f :: s.stack)
    (hf : ∀ i, isCompleting i (f :: s.stack) = isCompleting i s.stack) (rc : IotError) :
    (t.log (.leave f rc)).IsConsistent := by
  apply ht.restack (t := t.log _) rfl (mark_log_leave f rc)
  intro i
  rw [stack_log_leave, hstack, List.tail_cons, hf]

/-- Behind a frame under which the completions of before go on. -/
theorem Leaves.leave {f : Frame} {u : World} (h : u.Leaves t) (hstack : u.stack = f :: s.stack)
    (hacks : u.ackWaitList = s.ackWaitList) (hmark : ∀ i, u.mark i = s.mark i)
    (hf : ∀ i, isCompleting i (f :: s.stack) = isCompleting i s.stack) (rc : IotError) :
    s.Leaves (t.log (.leave f rc)) where
  stack_eq := by rw [stack_log_leave, h.stack_eq, hstack, List.tail_cons]
  records := by
    intro i hi
    rw [← hf, ← hstack] at hi
    obtain ⟨hrecord, hmark'⟩ := h.records i hi
    rw [mark_log_leave, hmark', hmark, ← hacks]
    exact ⟨hrecord, rfl⟩

end World

/-! ## Programs that keep the records -/

/-- A timer has expired only where it is `due`. -/
def expiresWhen (due : World → AckIndex → Prop) : (q : Query) → World → Answer q → Prop
  | .hasTimerExpired i, w, (expired : Bool) => expired = true → due w i
  | _, _, _ => True

/-- The runs that are looked at, and what is shown of their steps. -/
abbrev answeringOnce (due : World → AckIndex → Prop) : Discipline World Answer :=
  alone (fun _ _ => True) (expiresWhen due) World.IsCautious (World.AnswersOnce due)

section Programs

variable {due : World → AckIndex → Prop}

/-- Programs that end with consistent records, and leave those alone that are being completed. -/
abbrev LeavesRecords (due : World → AckIndex → Prop) {α : Type} (p : M α) : Prop :=
  Preserves (answeringOnce due) World.IsConsistent World.Leaves p

/-- A single step that stands aside leaves the records. -/
theorem leavesRecords_bystands {α : Type} {v : World → α} {f : World → World}
    (h : ∀ s : World, s.Bystands (f s)) : LeavesRecords due (Program.atomically v f) :=
  fun s hs => wp_act_solo.mpr fun _ =>
    ⟨(h s).answersOnce, (h s).isConsistent hs, (h s).leaves⟩

/-- The rule for a frame under which the same completions are in progress. -/
theorem wp_framed_leaves {f : Frame} {body : M IotError} {s : World}
    (hf : ∀ i, isCompleting i (f :: s.stack) = isCompleting i s.stack)
    (hown : ∀ i status, f ≠ .completing i status)
    (hbody : LeavesRecords due body) (hs : s.IsConsistent) :
    wp (answeringOnce due) (framed f body) (fun _ t => t.IsConsistent ∧ s.Leaves t) s := by
  apply wp_framed
  intro _
  refine ⟨World.answersOnce_enter fun i status h => absurd h (hown i status), ?_⟩
  apply wp_mono _ (hbody _ (hs.enter hf))
  rintro rc t ⟨ht, hleaves⟩ _
  exact ⟨t.answersOnce_leave f rc, ht.leave hleaves.stack_eq hf rc,
    hleaves.leave (s := s) rfl rfl (World.mark_log_enter f) hf rc⟩

theorem ne_completing_of_isAside {f : Frame} (hf : f.isAside = true) (i : AckIndex)
    (status : AckStatus) : f ≠ .completing i status := by
  rintro rfl
  cases hf

/-- So do programs made of steps and frames that stand aside. -/
theorem walks_leavesRecords : Walks (Frame.isAside · = true) (Part.isAside · = true)
    fun _ p => LeavesRecords due p where
  ret := preserves_pure World.Leaves.refl
  stop := fun _ _ => trivial
  bind := Preserves.bind fun _ _ _ h h' => h.trans h'
  ask := fun _ s hs => wp_ask_solo.mpr ⟨trivial, fun _ _ => ⟨hs, .refl s⟩⟩
  get := leavesRecords_bystands fun _ => ⟨rfl, .inl rfl⟩
  atomically := fun hpart hf =>
    leavesRecords_bystands fun w => World.bystands_of_changesTo hpart (hf w)
  framed := fun hf hbody s hs =>
    wp_framed_leaves (fun i => isCompleting_cons_of_isAside hf i s.stack)
      (ne_completing_of_isAside hf) hbody hs

end Programs

/-! ## Putting a record to use -/

namespace World

/-- From now on an action waits in the record. -/
structure Occupies (s t : World) (i : AckIndex) (p : Target) (isSticky : Bool) : Prop where
  trace_eq : t.trace = .awaited i p isSticky :: s.trace
  others : ∀ j, j ≠ i → t.ackWaitList j = s.ackWaitList j
  used : (t.ackWaitList i).isFree = false
  callback : ∃ name, (t.ackWaitList i).callback = some name

/-- A request that is tracked puts one record to use. -/
theorem occupies_addToAckWaitList (s : World) (i : AckIndex) (p : Target) (token : List UInt8)
    (callback : CallbackName) (context : Nat) (isSticky : Bool) :
    s.Occupies ((s.addToAckWaitList i p token callback context).log (.awaited i p isSticky)) i p
      isSticky where
  trace_eq := rfl
  others := fun _ hj => Function.update_of_ne hj _ _
  used := by simp [addToAckWaitList, setAck, log]
  callback := ⟨callback, by simp [addToAckWaitList, setAck, log]⟩

variable {due : World → AckIndex → Prop} {s t : World} {i : AckIndex} {p : Target}
  {isSticky : Bool}

/-- The record that is put to use was free. -/
theorem Occupies.ne_of_used (hfree : (s.ackWaitList i).isFree = true) {j : AckIndex}
    (hj : (s.ackWaitList j).isFree = false) : j ≠ i := by
  rintro rfl
  rw [hfree] at hj
  cases hj

/-- The other records are marked as before. -/
theorem Occupies.mark_of_ne (h : s.Occupies t i p isSticky) {j : AckIndex} (hj : j ≠ i) :
    t.mark j = s.mark j := by
  rw [mark_cons h.trace_eq, Event.mark?, if_neg (Ne.symm hj), Option.none_or]

theorem Occupies.stack_eq (h : s.Occupies t i p isSticky) : t.stack = s.stack := by
  rw [stack, h.trace_eq]
  rfl

/-- Putting a record to use answers nothing. -/
theorem Occupies.answersOnce (h : s.Occupies t i p isSticky)
    (hfree : (s.ackWaitList i).isFree = true) : s.AnswersOnce due t where
  begun := by
    intro j status htrace
    cases (List.cons.inj (h.trace_eq.symm.trans htrace)).1
  called := by
    intro j r status htrace
    cases (List.cons.inj (h.trace_eq.symm.trans htrace)).1
  freed := by
    intro j hused hfree'
    rw [h.others j (ne_of_used hfree hused), hused] at hfree'
    cases hfree'
  kept := fun j hused _ => h.others j (ne_of_used hfree hused)

/-- It leaves the records that were in use. -/
theorem Occupies.leaves (h : s.Occupies t i p isSticky) (hfree : (s.ackWaitList i).isFree = true)
    (hs : s.IsConsistent) : s.Leaves t where
  stack_eq := h.stack_eq
  records := by
    intro j hj
    have hne : j ≠ i := ne_of_used hfree (hs.held j hj)
    exact ⟨h.others j hne, h.mark_of_ne hne⟩

/-- It keeps records and trace consistent. -/
theorem Occupies.isConsistent (h : s.Occupies t i p isSticky)
    (hfree : (s.ackWaitList i).isFree = true)
    (hs : s.IsConsistent) : t.IsConsistent where
  held := by
    intro j hj
    rw [h.stack_eq] at hj
    rw [((h.leaves hfree hs).records j hj).1]
    exact hs.held j hj
  fresh := by
    intro j hj hnot
    rw [h.stack_eq] at hnot
    by_cases hij : j = i
    · subst hij
      rw [mark_cons h.trace_eq, Event.mark?, if_pos rfl, Option.some_or]
    · rw [h.others j hij] at hj
      rw [h.mark_of_ne hij]
      exact hs.fresh j hj hnot
  callback := by
    intro j hj
    by_cases hij : j = i
    · exact hij ▸ h.callback
    · rw [h.others j hij] at hj ⊢
      exact hs.callback j hj

end World

section Actions

variable {due : World → AckIndex → Prop}

/-- The steps of the actions leave the records as well. -/
theorem actionWalks_leavesRecords : ActionWalks (Frame.isAside · = true) (Part.isAside · = true)
    fun _ p => LeavesRecords due p :=
  { walks_leavesRecords with
    formerLocal := rfl
    handlers := rfl
    unsubscribe := fun _ => rfl
    published := fun _ _ => rfl
    subscriptions := rfl
    subscribing := fun _ _ _ => rfl
    awaited := by
      intro i p token callback context isSticky s hs
      apply wp_act_solo.mpr
      intro hmay
      have hfree : (s.ackWaitList i).isFree = true := hmay.awaits i p isSticky rfl
      have hoccupies := s.occupies_addToAckWaitList i p token callback context isSticky
      exact ⟨hoccupies.answersOnce hfree, hoccupies.isConsistent hfree hs,
        hoccupies.leaves hfree hs⟩ }

/-- The request that is made meanwhile does not change what is being completed. -/
theorem leavesRecords_requested (args : ActionArgs) (doc : List UInt8)
    (body : Option (List UInt8) → M IotError) (hbody : ∀ token, LeavesRecords due (body token)) :
    LeavesRecords due (requested args doc body) := by
  intro s hs
  have hf (i : AckIndex) : isCompleting i (s.withRequest args doc).stack = isCompleting i s.stack :=
    rfl
  have hmark (i : AckIndex) : (s.withRequest args doc).mark i = s.mark i :=
    World.mark_cons (e := .enter (.action args (s.requestToken doc))) rfl i
  apply wp_act_solo.mpr
  intro _
  refine ⟨World.answersOnce_of_eq rfl (.inr ⟨_, fun _ => rfl, (fun _ _ h => by cases h), rfl⟩), ?_⟩
  change wp (answeringOnce due) (body _ >>= fun rc => _) _ _
  rw [wp_bind]
  apply wp_mono _ (hbody _ _ (hs.restack (t := s.withRequest args doc) rfl hmark hf))
  rintro rc t ⟨ht, hleaves⟩
  apply wp_act_solo.mpr
  intro _
  exact ⟨t.answersOnce_leave _ rc, ht.leave hleaves.stack_eq (fun _ => rfl) rc,
    hleaves.leave (s := s) rfl rfl hmark (fun _ => rfl) rc⟩

end Actions

/-! ## Completing a record -/

namespace World

variable {due : World → AckIndex → Prop} {s t : World} {i : AckIndex} {status : AckStatus}

/-- The world in which a record has begun to be completed and its callback is called. -/
def answering (s : World) (i : AckIndex) (status : AckStatus) : World :=
  (s.log (.enter (.completing i status))).log (.answered i (s.ackWaitList i) status)

/-- A record that is being answered is marked with its status. -/
theorem mark_answering (j : AckIndex) :
    (s.answering i status).mark j = if i = j then some (.answered status) else s.mark j := by
  have hmark : (s.answering i status).mark j = (Event.mark? j (.answered i _ status)).or
      ((s.log (.enter (.completing i status))).mark j) := mark_cons rfl j
  rw [hmark, mark_log_enter]
  by_cases hij : i = j <;> simp [Event.mark?, hij]

/-- It is completed from then on. -/
theorem isCompleting_answering (j : AckIndex) :
    isCompleting j (s.answering i status).stack = (decide (i = j) || isCompleting j s.stack) := rfl

/-- Records and trace are consistent while its callback runs. -/
theorem isConsistent_answering (hs : s.IsConsistent) (hused : (s.ackWaitList i).isFree = false) :
    (s.answering i status).IsConsistent where
  held := by
    intro j hj
    rw [isCompleting_answering, Bool.or_eq_true, decide_eq_true_iff] at hj
    rcases hj with rfl | hj
    · exact hused
    · exact hs.held j hj
  fresh := by
    intro j hj hnot
    rw [isCompleting_answering, Bool.or_eq_false_iff, decide_eq_false_iff_not] at hnot
    rw [mark_answering, if_neg hnot.1]
    exact hs.fresh j hj hnot.2
  callback := hs.callback

/-- The callback is called of a record that waits and is not being completed. -/
theorem answersOnce_answering (hs : s.IsConsistent) (hused : (s.ackWaitList i).isFree = false)
    (hnot : isCompleting i s.stack = false) :
    (s.log (.enter (.completing i status))).AnswersOnce due (s.answering i status) where
  begun := by
    intro j status' htrace
    cases (List.cons.inj htrace).1
  called := by
    intro j r status' htrace
    cases (List.cons.inj htrace).1
    rw [mark_log_enter]
    exact hs.fresh i hused hnot
  freed := by
    intro j hj hfree
    exact absurd (hj.symm.trans hfree) Bool.false_ne_true
  kept := fun _ _ _ => rfl

/-- A completion that began in `s` has answered the record and is about to free it. -/
structure IsAnswered (s t : World) (i : AckIndex) (status : AckStatus) : Prop where
  started : isCompleting i s.stack = false
  consistent : t.IsConsistent
  leaves : (s.answering i status).Leaves t

/-- Freeing one record leaves the other ones. -/
theorem ackWaitList_freeAck_of_ne {j : AckIndex} (h : j ≠ i) :
    (t.freeAck i).ackWaitList j = t.ackWaitList j := Function.update_of_ne h _ _

theorem isFree_freeAck : ((t.freeAck i).ackWaitList i).isFree = true := by
  simp [freeAck, setAck]

namespace IsAnswered

theorem stack_eq (h : s.IsAnswered t i status) : t.stack = .completing i status :: s.stack :=
  h.leaves.stack_eq

/-- The record is marked as answered. -/
theorem mark_eq (h : s.IsAnswered t i status) : t.mark i = some (.answered status) := by
  have hcompleting : isCompleting i (s.answering i status).stack = true := by
    rw [isCompleting_answering, decide_eq_true rfl, Bool.true_or]
  rw [(h.leaves.records i hcompleting).2, mark_answering, if_pos rfl]

/-- The record is freed by the completion in which its callback was called. -/
theorem answersOnce_freeAck (h : s.IsAnswered t i status) : t.AnswersOnce due (t.freeAck i) where
  begun := fun _ _ htrace => absurd htrace (List.ne_cons_self (l := t.trace))
  called := fun _ _ _ htrace => absurd htrace (List.ne_cons_self (l := t.trace))
  freed := by
    intro j hused hfree
    by_cases hj : j = i
    · subst hj
      exact ⟨status, s.stack, h.stack_eq, h.mark_eq⟩
    · rw [ackWaitList_freeAck_of_ne hj, hused] at hfree
      cases hfree
  kept := by
    intro j _ hused
    apply ackWaitList_freeAck_of_ne
    rintro rfl
    rw [isFree_freeAck] at hused
    cases hused

variable {u : World}

/-- It was not being completed before. -/
theorem ne_of_isCompleting (h : s.IsAnswered t i status) {j : AckIndex}
    (hj : isCompleting j s.stack = true) : j ≠ i := by
  rintro rfl
  rw [h.started] at hj
  cases hj

/-- Nothing else has come to be completed. -/
theorem isCompleting_eq (h : s.IsAnswered t i status) {j : AckIndex} (hj : j ≠ i) :
    isCompleting j t.stack = isCompleting j s.stack := by
  rw [h.stack_eq]
  change (decide (i = j) || _) = _
  rw [decide_eq_false (Ne.symm hj), Bool.false_or]

/-- Once the record is free, the books agree with the stack on which the completion began. -/
theorem isConsistent (h : s.IsAnswered t i status)
    (hacks : u.ackWaitList = (t.freeAck i).ackWaitList)
    (hmark : ∀ j, u.mark j = t.mark j)
    (hu : ∀ j, isCompleting j u.stack = isCompleting j s.stack) :
    u.IsConsistent where
  held := by
    intro j hj
    rw [hu] at hj
    have hne := h.ne_of_isCompleting hj
    rw [hacks, ackWaitList_freeAck_of_ne hne]
    exact h.consistent.held j ((h.isCompleting_eq hne).trans hj)
  fresh := by
    intro j hused hnot
    have hne : j ≠ i := by
      rintro rfl
      rw [hacks, isFree_freeAck] at hused
      cases hused
    rw [hacks, ackWaitList_freeAck_of_ne hne] at hused
    rw [hmark]
    exact h.consistent.fresh j hused ((h.isCompleting_eq hne).trans (hu j ▸ hnot))
  callback := by
    intro j hused
    have hne : j ≠ i := by
      rintro rfl
      rw [hacks, isFree_freeAck] at hused
      cases hused
    rw [hacks, ackWaitList_freeAck_of_ne hne] at hused ⊢
    exact h.consistent.callback j hused

/-- What was being completed before is as it was when the record has been freed. -/
theorem records (h : s.IsAnswered t i status) (hacks : u.ackWaitList = (t.freeAck i).ackWaitList)
    (hmark : ∀ j, u.mark j = t.mark j) {j : AckIndex} (hj : isCompleting j s.stack = true) :
    u.ackWaitList j = s.ackWaitList j ∧ u.mark j = s.mark j := by
  have hne := h.ne_of_isCompleting hj
  have hcompleting : isCompleting j (s.answering i status).stack = true := by
    rw [isCompleting_answering, hj, Bool.or_true]
  obtain ⟨hrecord, hmark'⟩ := h.leaves.records j hcompleting
  rw [hacks, ackWaitList_freeAck_of_ne hne, hrecord, hmark, hmark', mark_answering,
    if_neg (Ne.symm hne)]
  exact ⟨rfl, rfl⟩

/-- The completion ends with the record free. -/
theorem ended (h : s.IsAnswered t i status) (rc : IotError) :
    ((t.freeAck i).log (.leave (.completing i status) rc)).IsConsistent ∧
      s.Leaves ((t.freeAck i).log (.leave (.completing i status) rc)) := by
  have hmark := mark_log_leave (s := t.freeAck i) (.completing i status) rc
  have hstack : ((t.freeAck i).log (.leave (.completing i status) rc)).stack = s.stack :=
    congrArg List.tail h.stack_eq
  exact ⟨h.isConsistent rfl hmark fun j => by rw [hstack], hstack,
    fun _ hj => h.records rfl hmark hj⟩

end IsAnswered

end World

/-! ## The operations -/

section Operations

variable {due : World → AckIndex → Prop} {fuel : Nat} {call : Procedure → M IotError} {s : World}
  {i : AckIndex} {status : AckStatus}

/-- The callback is called once, with the record still in use. -/
theorem wp_answerRecord (hcall : ∀ c, LeavesRecords due (call (.call c))) (hs : s.IsConsistent)
    (hused : (s.ackWaitList i).isFree = false) (hnot : isCompleting i s.stack = false) :
    wp (answeringOnce due) (answerRecord fuel call i status) (fun _ t => s.IsAnswered t i status)
      (s.log (.enter (.completing i status))) := by
  obtain ⟨name, hname⟩ := hs.callback i hused
  unfold answerRecord
  rw [wp_bind]
  apply wp_act_solo.mpr
  intro _
  refine ⟨World.answersOnce_of_eq rfl (.inl rfl), ?_⟩
  rw [wp_ret]
  dsimp only
  split
  next hnone => cases hnone.symm.trans hname
  next name _ =>
      apply wp_act_solo.mpr
      intro _
      refine ⟨World.answersOnce_answering hs hused hnot, ?_⟩
      have hcallback : LeavesRecords due (framedVoid (.callback name) (application fuel call)) :=
        walks_leavesRecords.framedVoid rfl (walks_leavesRecords.application hcall)
      apply wp_mono _ (hcallback _ (World.isConsistent_answering hs hused))
      rintro _ t ⟨ht, hleaves⟩
      exact ⟨hnot, ht, hleaves⟩

/-- Unsubscribing the topics of a record, which may have been freed before. -/
theorem wp_releasing (hcall : ∀ packet, LeavesRecords due (call (.receive packet)))
    {Φ : Unit → World → Prop} (hs : (s.log (.enter (.releasing i))).IsConsistent)
    (hΦ : ∀ t : World, t.IsConsistent → (s.log (.enter (.releasing i))).Leaves t →
      Φ () (t.log (.leave (.releasing i) .success))) :
    wp (answeringOnce due) (unsubscribeFromAcceptedAndRejected fuel call i) Φ s := by
  have hrelease (topic : List UInt8) : LeavesRecords due (releaseTopic fuel call topic) :=
    actionWalks_leavesRecords.releaseTopic hcall topic
  apply wp_framedVoid
  intro _
  refine ⟨World.answersOnce_enter fun _ _ => nofun, ?_⟩
  apply wp_mono _ (walks_leavesRecords.bind walks_leavesRecords.get (fun w =>
    walks_leavesRecords.bind (hrelease (w.ackWaitList i).target.accepted) fun _ =>
      hrelease (w.ackWaitList i).target.rejected) _ hs)
  rintro _ t ⟨ht, hleaves⟩ _
  exact ⟨t.answersOnce_leave _ _, hΦ t ht hleaves⟩

/-- A record that is completed is answered once and then free. -/
theorem wp_completeAck (hcall : ∀ proc, LeavesRecords due (call proc)) (hs : s.IsConsistent)
    (hused : (s.ackWaitList i).isFree = false) (hstatus : status ≠ .timeout)
    (hown : s.IsOwn due i status) :
    wp (answeringOnce due) (completeAck fuel call i status)
      (fun _ t => t.IsConsistent ∧ s.Leaves t) s := by
  apply wp_framedVoid
  intro hmay
  have hnot : isCompleting i s.stack = false := hmay.completes i status rfl
  refine ⟨World.answersOnce_enter fun _ _ h => by cases h; exact hown, ?_⟩
  rw [wp_bind]
  apply wp_mono _ (wp_answerRecord (fun c => hcall (.call c)) hs hused hnot)
  intro _ t ht
  have hsame (j : AckIndex) :
      isCompleting j (.releasing i :: t.stack) = isCompleting j t.stack := by
    rw [ht.stack_eq]
    cases status <;> first | rfl | exact absurd rfl hstatus
  rw [wp_bind]
  apply wp_releasing (fun packet => hcall (.receive packet)) (ht.consistent.enter hsame)
  intro u hu hleaves
  have hanswered : s.IsAnswered (u.log (.leave (.releasing i) .success)) i status :=
    ⟨hnot, hu.leave hleaves.stack_eq hsame _,
      ht.leaves.trans (hleaves.leave rfl rfl (World.mark_log_enter _) hsame _)⟩
  apply wp_act_solo.mpr
  intro _
  exact ⟨hanswered.answersOnce_freeAck, fun _ =>
    ⟨World.answersOnce_leave _ _ _, hanswered.ended .success⟩⟩

/-- The record is free when its topics are unsubscribed. What waits in it by then is not
answered by what is left of this completion. -/
theorem wp_completeExpired (hcall : ∀ proc, LeavesRecords due (call proc)) (hs : s.IsConsistent)
    (hused : (s.ackWaitList i).isFree = false) (hdue : due s i) :
    wp (answeringOnce due) (completeExpired fuel call i)
      (fun _ t => t.IsConsistent ∧ s.Leaves t) s := by
  apply wp_framedVoid
  intro hmay
  have hnot : isCompleting i s.stack = false := hmay.completes i .timeout rfl
  refine ⟨World.answersOnce_enter fun _ _ h => by cases h; exact hdue, ?_⟩
  rw [wp_bind]
  apply wp_mono _ (wp_answerRecord (fun c => hcall (.call c)) hs hused hnot)
  intro _ t ht
  apply wp_act_solo.mpr
  intro _
  refine ⟨ht.answersOnce_freeAck, ?_⟩
  have hstack : ((t.freeAck i).log (.enter (.releasing i))).stack =
      .releasing i :: .completing i .timeout :: s.stack := congrArg _ ht.stack_eq
  -- the record is free from here on; the marks are as the callback has left them
  have hfreed (j : AckIndex) :
      isCompleting j ((t.freeAck i).log (.enter (.releasing i))).stack =
        isCompleting j s.stack := by
    rw [hstack]
    rfl
  have hmark (j : AckIndex) :
      ((t.freeAck i).log (.enter (.releasing i))).mark j = t.mark j := World.mark_log_enter _ j
  apply wp_releasing (fun packet => hcall (.receive packet)) (ht.isConsistent rfl hmark hfreed)
  intro u hu hleaves _
  refine ⟨World.answersOnce_leave _ _ _, ?_⟩
  have hended : ((u.log (.leave (.releasing i) .success)).log
      (.leave (.completing i .timeout) .success)).stack = s.stack := by
    rw [World.stack_log_leave, World.stack_log_leave, hleaves.stack_eq, hstack]
    rfl
  have hkept (j : AckIndex) : ((u.log (.leave (.releasing i) .success)).log
      (.leave (.completing i .timeout) .success)).mark j = u.mark j := by
    rw [World.mark_log_leave, World.mark_log_leave]
  refine ⟨hu.restack rfl hkept fun j => by rw [hended, hleaves.stack_eq, hfreed], hended, ?_⟩
  intro j hj
  obtain ⟨hrecord, hfirst⟩ := ht.records rfl hmark hj
  obtain ⟨hlast, hthen⟩ := hleaves.records j ((hfreed j).trans hj)
  exact ⟨hlast.trans hrecord, (hkept j).trans (hthen.trans hfirst)⟩

/-- Every record whose time is over is answered once. -/
theorem leavesRecords_handleExpiredResponseCallbacks
    (hcall : ∀ proc, LeavesRecords due (call proc)) :
    LeavesRecords due (handleExpiredResponseCallbacks fuel call) := by
  apply walks_leavesRecords.forEach
  intro i s hs
  apply wp_expired (fun _ _ => trivial) (World.answersOnce_of_eq rfl (.inl rfl))
  · exact ⟨hs, .refl s⟩
  · exact fun hused hdue => wp_completeExpired hcall hs hused (hdue rfl)

/-! ## The layer -/

/-- What decides about a response is as it was when its handling began in `s`. -/
structure World.IsHandling (s : World) (m : MessageRef) (t : World) : Prop where
  readBuf : t.readBuf = s.readBuf
  acks : t.ackWaitList = s.ackWaitList
  consistent : t.IsConsistent
  leaves : (s.log (.enter (.ackStatus m))).Leaves t

/-- The message that is being handled stays the same along steps that stand aside. -/
theorem World.IsHandling.bystands {m : MessageRef} {t u : World} (ht : s.IsHandling m t)
    (h : t.Bystands u) (hread : u.readBuf = t.readBuf) : s.IsHandling m u where
  readBuf := hread.trans ht.readBuf
  acks := h.1.trans ht.acks
  consistent := h.isConsistent ht.consistent
  leaves := ht.leaves.trans h.leaves

/-- The message with the token of a record answers that record on its own account. -/
theorem World.IsHandling.isOwn {m : MessageRef} {t : World} {token : List UInt8}
    (ht : s.IsHandling m t) (hresponds : s.RespondsRightly m) (htoken : s.ackToken m = some token)
    (hawaits : t.Awaits token i) (hstatus : status ≠ .timeout) : t.IsOwn due i status := by
  have hrecord : s.ackToken m = some (t.ackWaitList i).tokenText := by rw [htoken, hawaits.2]
  have hresponse : t.IsResponse m i := by
    have hused := hawaits.1
    rw [ht.acks] at hused hrecord
    rw [World.IsResponse, World.receivedTopic, ht.readBuf, ht.acks]
    exact hresponds i hused hrecord
  have hcarries : t.Carries m (t.ackWaitList i).tokenText := by
    refine ⟨s.shadowRxBuf, s.jsonTokenStruct, ?_⟩
    rw [← hrecord]
    exact ackToken_congr ht.readBuf rfl rfl
  cases status with
  | timeout => exact absurd rfl hstatus
  | accepted | rejected => exact ⟨m, s.stack, ht.leaves.stack_eq, hresponse, hcarries⟩

/-- A response answers the record that waits for it, and no other one. -/
theorem leavesRecords_ackStatusCallback (hcall : ∀ proc, LeavesRecords due (call proc))
    (m : MessageRef) : LeavesRecords due (ackStatusCallback fuel call m) := by
  intro s hs
  apply wp_framedVoid
  intro hmay
  have hresponds : s.RespondsRightly m := hmay.responds m rfl
  have hf (i : AckIndex) : isCompleting i (.ackStatus m :: s.stack) = isCompleting i s.stack := rfl
  have hentered : s.IsHandling m (s.log (.enter (.ackStatus m))) :=
    ⟨rfl, rfl, hs.enter hf, .refl _⟩
  refine ⟨World.answersOnce_enter fun _ _ => nofun, ?_⟩
  apply wp_mono (Φ := fun _ t => t.IsConsistent ∧ (s.log (.enter (.ackStatus m))).Leaves t)
  · rintro _ t ⟨ht, hleaves⟩ _
    exact ⟨t.answersOnce_leave _ _, ht.leave hleaves.stack_eq hf _,
      hleaves.leave (s := s) rfl rfl (World.mark_log_enter _) hf _⟩
  · apply wp_ackStatusBody (P := s.IsHandling m) (fun _ _ => trivial) _ _ _ _ _ hentered
    · exact fun t _ => World.answersOnce_of_eq rfl (.inl rfl)
    · intro t u ht hchange
      have hbystands := World.bystands_of_changesTo rfl hchange
      exact ⟨hbystands.answersOnce, ht.bystands hbystands (by rw [hchange.1])⟩
    · intro t tokenCount ht
      have hbystands := t.bystands_withResponseVersion m tokenCount
      exact ⟨hbystands.answersOnce, ht.bystands hbystands (t.readBuf_withResponseVersion m _)⟩
    · exact fun t ht => ⟨ht.consistent, ht.leaves⟩
    · intro t token i status ht htoken hawaits hallows
      have htoken' : s.ackToken m = some token := (World.ackToken_congr rfl rfl rfl).trans htoken
      have hown : t.IsOwn due i status := ht.isOwn hresponds htoken' hawaits hallows.ne_timeout
      apply wp_mono _ (wp_completeAck hcall ht.consistent hawaits.1 hallows.ne_timeout hown)
      exact fun _ u hu => ⟨hu.1, ht.leaves.trans hu.2⟩

/-- A delta answers no record. -/
theorem leavesRecords_shadowDeltaCallback (hcall : ∀ proc, LeavesRecords due (call proc))
    (m : MessageRef) : LeavesRecords due (shadowDeltaCallback fuel call m) := by
  apply walks_leavesRecords.framedVoid rfl
  apply actionWalks_leavesRecords.shadowDeltaBody rfl
  · exact fun tokenCount => leavesRecords_bystands fun w => w.bystands_withDeltaVersion tokenCount
  · exact actionWalks_leavesRecords.dispatchKey hcall (fun _ _ => rfl) (fun _ _ _ => rfl)
      fun _ => rfl

/-- A call is within what is looked at if it does not connect. -/
theorem leavesRecords_framed_perform (hcall : ∀ proc, LeavesRecords due (call proc)) (c : Call) :
    LeavesRecords due (framed (.call c) (perform fuel call c)) := by
  have hperform (hparts : ∀ part ∈ c.parts, part.isAside = true) :
      LeavesRecords due (framed (.call c) (perform fuel call c)) :=
    walks_leavesRecords.framed rfl (actionWalks_leavesRecords.perform leavesRecords_requested
      (leavesRecords_handleExpiredResponseCallbacks hcall) hcall hparts)
  cases c with
  | connect params =>
      intro s hs
      apply wp_framed
      intro hmay
      exact absurd rfl (hmay.continues params)
  | _ => exact hperform (by simp [Call.parts, Part.isAside])

/-- Every procedure answers each record once, if those that it calls do. -/
theorem leavesRecords_runProcedure (hcall : ∀ proc, LeavesRecords due (call proc))
    (proc : Procedure) : LeavesRecords due (runProcedure fuel call proc) := by
  cases proc with
  | call c => exact leavesRecords_framed_perform hcall c
  | receive packet =>
      exact actionWalks_leavesRecords.receivePacket (fun _ => rfl) (fun _ => rfl) rfl
        (leavesRecords_ackStatusCallback hcall) (leavesRecords_shadowDeltaCallback hcall)
        (fun c => hcall (.call c)) packet

/-- So every procedure does, with any fuel. -/
theorem leavesRecords_api (fuel : Nat) (proc : Procedure) : LeavesRecords due (api fuel proc) := by
  induction fuel generalizing proc with
  | zero => exact fun _ _ => trivial
  | succ fuel ih => exact leavesRecords_runProcedure ih proc

/-- So does the whole application. -/
theorem leavesRecords_app (fuel : Nat) : LeavesRecords due (app fuel) :=
  walks_leavesRecords.application fun c => leavesRecords_api fuel (.call c)

end Operations

/-- In every run that is cautious, the callback of every action is called once at most, and
its record becomes free at the end of the completion in which it was called; that is one of
its own, by a message on its topics with its token, or by its timer. -/
theorem answersOnce_of_moves {due : World → AckIndex → Prop} {fuel : Nat} {w s t : World}
    {p p' : M Unit} (hw : w.IsIdle)
    (hmoves : Moves (expiresWhen due) World.IsCautious (app fuel, w) (p, s))
    (hmove : Move (expiresWhen due) World.IsCautious (p, s) (p', t)) : s.AnswersOnce due t := by
  have hleaves : LeavesRecords due (app fuel) := leavesRecords_app fuel
  rcases guar_of_moves (D := answeringOnce due) (hleaves w hw.isConsistent) hmoves hmove with
    hguar | rfl
  · exact hguar
  · exact World.answersOnce_of_eq rfl (.inl rfl)

/-! ## An action that is not answered in time -/

/-- An action whose time is over when the application yields. -/
def expiredUpdate (inCallback : List (Option Call)) : Script where
  traffic := []
  calls := [some (.update (some (sampleText "t"))
      (some (sampleText "\x7b\"clientToken\":\"x\"\x7d"))
    (some 0) 0 4 false), some (.yield 0)] ++ inCallback
  expired := [true, true]

namespace World

def isCautious (s t : World) : Bool :=
  match s.logged t with
  | some (.enter (.call (.connect _))) => false
  | some (.enter (.completing i _)) => !isCompleting i s.stack
  | some (.awaited i _ _) => (s.ackWaitList i).isFree
  | some (.enter (.ackStatus m)) => decide (s.RespondsRightly m)
  | _ => true

/-- The test for caution is sound. -/
theorem isCautious_of_eq_true (s t : World) (h : s.isCautious t = true) : s.IsCautious t := by
  constructor
  · intro params htrace
    rw [isCautious, logged_of_trace_eq htrace] at h
    cases h
  · intro i status htrace
    rw [isCautious, logged_of_trace_eq htrace] at h
    exact Bool.not_eq_true' _ ▸ h
  · intro i p isSticky htrace
    rw [isCautious, logged_of_trace_eq htrace] at h
    exact h
  · intro m htrace
    rw [isCautious, logged_of_trace_eq htrace] at h
    exact of_decide_eq_true h

/-- At the start nothing waits for an answer. -/
theorem isIdle_blankWorld : blankWorld.IsIdle := ⟨fun _ => rfl, rfl⟩

end World

def expiresFirst : (q : Query) → World → Answer q → Bool
  | .hasTimerExpired i, _, (expired : Bool) => !expired || i.val = 0
  | _, _, _ => true

theorem expiresWhen_of_expiresFirst (q : Query) (w : World) (a : Answer q)
    (h : expiresFirst q w a = true) : expiresWhen (fun _ i => i.val = 0) q w a := by
  cases q with
  | hasTimerExpired i => exact fun hexpired => by simpa [expiresFirst, hexpired] using h
  | _ => trivial

/-- The first record expires in the script, and its steps are cautious. -/
theorem movesTo_expiredUpdate :
    (expiredUpdate []).movesTo expiresFirst World.isCautious 6 44 = true := by
  decide +kernel

theorem answersOnce_expiredUpdate :
    (((expiredUpdate []).reached 6 44).2.ackWaitList ⟨0, by decide⟩).isFree = false ∧
      (((expiredUpdate []).reached 6 45).2.ackWaitList ⟨0, by decide⟩).isFree = true ∧
      ((expiredUpdate []).reached 6 44).2.AnswersOnce (fun _ i => i.val = 0)
        ((expiredUpdate []).reached 6 45).2 :=
  ⟨by decide +kernel, by decide +kernel,
    answersOnce_of_moves World.isIdle_blankWorld
      (Script.moves_reached expiresWhen_of_expiresFirst World.isCautious_of_eq_true
        movesTo_expiredUpdate)
      (Script.move_reached (by decide +kernel)
        (World.isCautious_of_eq_true _ _ (by decide +kernel)))⟩

def World.continues (s t : World) : Bool :=
  match s.logged t with
  | some (.enter (.call (.connect _))) => false
  | _ => true

theorem World.continues_of_eq_true (s t : World) (h : s.continues t = true) : s.Continues t := by
  intro params htrace
  rw [continues, logged_of_trace_eq htrace] at h
  cases h

/-- The callback of a record is called although no action waits in the record. -/
def World.callsAgain (s t : World) : Bool :=
  match s.logged t with
  | some (.answered i _ _) => s.mark i ≠ some .awaited
  | _ => false

/-- A step that calls back a record that has been answered does not answer once. -/
theorem World.not_answersOnce {due : World → AckIndex → Prop} {s t : World}
    (hrecords : s.Records t) (h : s.callsAgain t = true) : ¬ s.AnswersOnce due t := by
  intro honce
  cases hlogged : s.logged t with
  | none => rw [callsAgain, hlogged] at h; cases h
  | some e =>
      rw [callsAgain, hlogged] at h
      cases e with
      | answered i r status =>
          exact of_decide_eq_true h (honce.called i r status (hrecords.trace_eq hlogged))
      | _ => cases h

/-- The callback yields, and the action is still in the list when the timers are looked at. -/
theorem not_answersOnce_expiredUpdate :
    ¬ ∀ (fuel : Nat) (w s t : World) (p p' : M Unit), w.IsIdle →
      Moves (fun _ _ _ => True) World.Continues (app fuel, w) (p, s) →
      Move (fun _ _ _ => True) World.Continues (p, s) (p', t) →
        s.AnswersOnce (fun _ _ => True) t := by
  intro h
  have hcontinues : (expiredUpdate [some (.yield 0)]).movesTo (fun _ _ _ => true) World.continues
      6 48 = true := by decide +kernel
  have hmoves : Moves (fun _ _ _ => True) World.Continues (app 6, blankWorld)
      (((expiredUpdate [some (.yield 0)]).reached 6 48).1,
        ((expiredUpdate [some (.yield 0)]).reached 6 48).2) :=
    Script.moves_reached (fun _ _ _ _ => trivial) World.continues_of_eq_true hcontinues
  have hmove : Move (fun _ _ _ => True) World.Continues
      (((expiredUpdate [some (.yield 0)]).reached 6 48).1,
        ((expiredUpdate [some (.yield 0)]).reached 6 48).2)
      (((expiredUpdate [some (.yield 0)]).reached 6 49).1,
        ((expiredUpdate [some (.yield 0)]).reached 6 49).2) :=
    Script.move_reached (by decide +kernel) (World.continues_of_eq_true _ _ (by decide +kernel))
  exact World.not_answersOnce (records_of_step hmoves.steps hmove.step) (by decide +kernel)
    (h 6 blankWorld _ _ _ _ World.isIdle_blankWorld hmoves hmove)

end MqttClient.Shadow
