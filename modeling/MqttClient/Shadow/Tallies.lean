import MqttClient.Shadow.Pairs

/-! # Counting the records

The tally: the entries of an action count its records. Requests to the client leave it
right, a completion counts a record off, and a message that arrives meanwhile can only
make the counts smaller.
-/

namespace MqttClient.Shadow

open Effect Program

/-! ## The runs -/

/-- The requests that go to the broker. -/
def Request.isMessage : Request → Bool
  | .subscribe .. | .unsubscribe _ | .publish .. => true
  | _ => false

namespace World

/-- The client has a subscription to the topic, whatever is left of the local array. -/
def HasSubscription (w : World) (topic : List UInt8) : Prop :=
  ∃ j s, w.messageHandlers j = some s ∧ s.topicName ≠ .deleteAcceptedTopic ∧
    w.topicText s.topicName = topic

/-- The client's tables let it do what it is asked for. -/
def CanServe (w : World) : Request → Prop
  | .subscribe .. => w.getFreeMessageHandlerIndex ≠ none
  | .unsubscribe topic => w.HasSubscription topic
  | _ => True

/-- Callbacks make no calls, there is no connecting, and actions are not persistent
and on things with short names. -/
structure IsSimple (s t : World) : Prop where
  calls : ∀ c, t.trace = .enter (.call c) :: s.trace →
    s.stack = [] ∧ ∀ params, c ≠ .connect params
  actions : ∀ args token, t.trace = .enter (.action args token) :: s.trace →
    args.isSticky = false ∧
      ∀ thing, args.thingName = some thing → thing.chars.length < maxSizeOfThingName

end World

/-- Every subscribe, unsubscribe and publish succeeds, and no message arrives while an
unsubscribe waits. -/
def Succeeds : (q : Query) → World → Answer q → Prop
  | .claim r, s, rc => rc = IotError.success ∧ s.CanServe r
  | .send r, _, rc => r.isMessage = true → rc = IotError.success
  | .wait r, _, .done rc => r.isMessage = true → rc = .success
  | .wait r, _, .packet _ => ∀ topic, r ≠ .unsubscribe topic
  | .release _, _, rc => rc = IotError.success
  | _, _, _ => True

/-- The tally is right wherever no operation on the tables is in progress. -/
abbrev tallying : Discipline World Answer :=
  alone (fun _ _ => True) Succeeds World.IsSimple fun _ t => t.IsAtRest → t.IsTallied

/-! ## In the middle of an operation -/

namespace World

/-- The tables are as before, and the same is in progress. -/
structure Stays (s t : World) : Prop where
  stack_eq : t.stack = s.stack
  acks : t.ackWaitList = s.ackWaitList
  entries : t.subscriptionList = s.subscriptionList

variable {s t u : World}

theorem Stays.refl (s : World) : s.Stays s := ⟨rfl, rfl, rfl⟩

theorem Stays.trans (h : s.Stays t) (h' : t.Stays u) : s.Stays u :=
  ⟨h'.stack_eq.trans h.stack_eq, h'.acks.trans h.acks, h'.entries.trans h.entries⟩

/-- Whether a world is at rest depends on the calls in progress. -/
theorem isAtRest_congr (h : t.stack = s.stack) : t.IsAtRest ↔ s.IsAtRest := by
  rw [IsAtRest, h, IsAtRest]

/-- What stays tallies as before. -/
theorem Stays.isTallied (h : s.Stays t) (hs : s.IsTallied) : t.IsTallied :=
  hs.congr h.acks h.entries fun _ => isFilling_congr h.stack_eq

theorem Stays.dwindles (h : s.Stays t) : s.Dwindles t :=
  ⟨h.stack_eq, fun k _ => by rw [h.entries], fun k => by rw [h.entries], fun j _ => by rw [h.acks]⟩

end World

/-- Parts outside the tables, and events that move no frame. -/
def Part.isOutside : Part → Bool
  | .acks | .tables | .subscriptions | .event (.enter _) | .event (.leave ..) => false
  | _ => true

namespace World

variable {s t : World}

/-- A change of another part of the state leaves records and entries alone. -/
theorem stays_of_changesTo {part : Part} (hpart : part.isOutside = true)
    (h : s.ChangesTo part t) : s.Stays t := by
  cases part with
  | event e =>
      rw [h]
      cases e with
      | enter | leave => cases hpart
      | _ => exact ⟨rfl, rfl, rfl⟩
  | version => rw [h]; exact ⟨rfl, rfl, rfl⟩
  | document | registry => rw [h.1]; exact ⟨rfl, rfl, rfl⟩
  | acks | tables | subscriptions => cases hpart
  | _ => rw [h]; exact ⟨rfl, rfl, rfl⟩

/-- Entering a frame does not bring the world to rest. -/
theorem not_isAtRest_enter (h : ¬ s.IsAtRest) (f : Frame) : ¬ (s.log (.enter f)).IsAtRest :=
  fun hrest => h fun g hg => hrest g (List.mem_cons_of_mem f hg)

/-- Within a frame that works on the tables the world is not at rest. -/
theorem not_isAtRest_of_isTable {f : Frame} (hf : f.isTable = true) :
    ¬ (s.log (.enter f)).IsAtRest := by
  intro hrest
  have h := hrest f List.mem_cons_self
  rw [hf] at h
  cases h

end World

/-- Programs that leave the tables alone in the middle of an operation. -/
abbrev Staying {α : Type} (p : M α) : Prop :=
  Preserves tallying (fun s => ¬ s.IsAtRest) World.Stays p

/-- Programs that leave records and entries alone may be put together. -/
theorem walks_staying : Walks (fun _ => True) (Part.isOutside · = true) fun _ p => Staying p := by
  apply walks_preserves World.Stays.refl (fun _ _ _ h h' => h.trans h') (fun _ _ _ => trivial)
    (fun _ _ => trivial) (fun s hs hrest => absurd hrest hs)
  · intro part s t hpart hchange hs _
    have hstays := World.stays_of_changesTo hpart hchange
    have ht : ¬ t.IsAtRest := (World.isAtRest_congr hstays.stack_eq).not.mpr hs
    exact ⟨fun hrest => absurd hrest ht, ht, hstays⟩
  · intro f s _ hs _
    have ht := World.not_isAtRest_enter hs f
    exact ⟨fun hrest => absurd hrest ht, ht⟩
  · intro f s t rc _ hs _ _ hstays _
    have hstack : (t.log (.leave f rc)).stack = s.stack := by
      rw [World.stack_log_leave, hstays.stack_eq]
      rfl
    have ht := (World.isAtRest_congr hstack).not.mpr hs
    exact ⟨fun hrest => absurd hrest ht, ht, hstack, hstays.acks, hstays.entries⟩

/-- A step in the middle of an operation may do anything. -/
theorem wp_busy {α : Type} {f : World → World} {k : World → M α} {s : World}
    {Φ : α → World → Prop} (hf : ¬ (f s).IsAtRest)
    (h : tallying.may s (f s) → wp tallying (k s) Φ (f s)) : wp tallying (.act f k) Φ s :=
  wp_act_solo.mpr fun hmay => ⟨fun hrest => absurd hrest hf, h hmay⟩

theorem wp_get_busy {α : Type} {k : World → M α} {s : World} {Φ : α → World → Prop}
    (hs : ¬ s.IsAtRest) (h : wp tallying (k s) Φ s) : wp tallying (Program.get >>= k) Φ s :=
  wp_busy hs fun _ => h

/-! ## Requests to the client -/

/-- A request that the client can serve is served. -/
theorem wp_claimed_success {r : Request} {body : M IotError} {s : World} {P : World → Prop}
    (h : s.CanServe r → wp tallying body (fun rc t => rc = .success ∧ P t) s) :
    wp tallying (claimed r body) (fun rc t => rc = .success ∧ P t) s := by
  refine wp_ask_solo.mpr ⟨trivial, ?_⟩
  rintro rc ⟨rfl, hserve⟩
  change wp tallying (body >>= fun bodyRc => _) _ _
  rw [wp_bind]
  apply wp_mono _ (h hserve)
  rintro _ t ⟨rfl, ht⟩
  refine wp_ask_solo.mpr ⟨trivial, ?_⟩
  rintro rc rfl
  exact ⟨rfl, ht⟩

/-- Waiting for a request that is served, with what may happen meanwhile. -/
theorem wp_waitFor_message {fuel : Nat} {call : Procedure → M IotError} {r : Request}
    {I : World → Prop} {R : World → World → Prop} (hr : r.isMessage = true) (hrefl : ∀ s, R s s)
    (htrans : ∀ s t u, R s t → R t u → R s u)
    (hcall : (∀ topic, r ≠ .unsubscribe topic) → ∀ packet,
      Preserves tallying I R (call (.receive packet))) {s : World} (hs : I s) :
    wp tallying (waitFor fuel call r) (fun rc t => rc = .success ∧ I t ∧ R s t) s := by
  apply wp_loop (I := fun _ t => I t ∧ R s t) (fun _ _ _ => trivial) _ fuel () s ⟨hs, hrefl s⟩
  rintro _ t ⟨ht, hst⟩
  refine wp_ask_solo.mpr ⟨trivial, ?_⟩
  intro next hnext
  cases next with
  | done rc => exact ⟨hnext hr, ht, hst⟩
  | packet bytes =>
      change wp tallying (call (.receive bytes) >>= fun _ => _) _ _
      rw [wp_bind]
      apply wp_mono _ (hcall hnext bytes t ht)
      rintro _ u ⟨hu, htu⟩
      exact ⟨hu, htrans s t u hst htu⟩

/-- Somebody else's text may be found in the former local array. -/
theorem World.HasSubscription.subscriptionExists {w : World} {topic : List UInt8}
    (h : w.HasSubscription topic) (text : List UInt8) :
    ({ w with deleteAcceptedTopic := text } : World).subscriptionExists topic = true := by
  obtain ⟨j, s, hs, hname, htopic⟩ := h
  refine List.any_eq_true.mpr ⟨j, List.mem_finRange j, ?_⟩
  have hsame : ({ w with deleteAcceptedTopic := text } : World).topicText s.topicName =
      w.topicText s.topicName := by
    cases hbuffer : s.topicName with
    | deleteAcceptedTopic => exact absurd hbuffer hname
    | _ => rfl
  split
  next hnone => exact absurd (hs.symm.trans hnone) (by simp)
  next s' hs' =>
    obtain rfl : s = s' := Option.some.inj (hs.symm.trans hs')
    exact decide_eq_true (hsame.trans htopic)

section Requests

variable {fuel : Nat} {call : Procedure → M IotError} {s : World} {topic payload : List UInt8}

/-- An unsubscribe succeeds and touches no record. -/
theorem wp_mqttUnsubscribe (hs : ¬ s.IsAtRest) :
    wp tallying (mqttUnsubscribe fuel call topic) (fun rc t => rc = .success ∧ s.Stays t) s := by
  have hbusy : ¬ (s.log (.unsubscribe topic)).IsAtRest := hs
  apply wp_busy hbusy
  intro _
  apply wp_claimed_success (P := fun t => s.Stays t)
  intro hserve
  have hlook : wp tallying lookAtFormerLocal
      (fun _ u => s.Stays u ∧ u.subscriptionExists topic = true) (s.log (.unsubscribe topic)) := by
    refine wp_ask_solo.mpr ⟨trivial, fun text _ => ?_⟩
    apply wp_busy hbusy
    exact fun _ => ⟨⟨rfl, rfl, rfl⟩, World.HasSubscription.subscriptionExists hserve text⟩
  rw [wp_bind]
  apply wp_mono _ hlook
  rintro _ u ⟨hstays, hexists⟩
  have hu := (World.isAtRest_congr hstays.stack_eq).not.mpr hs
  apply wp_get_busy hu
  rw [if_neg (by simp [hexists]), wp_bind]
  apply wp_mono _ (wp_waitFor_message rfl World.Stays.refl
    (fun _ _ _ h h' => World.Stays.trans h h') (fun hno => absurd rfl (hno topic))
    (I := fun u => ¬ u.IsAtRest) hu)
  rintro _ t ⟨rfl, ht, hst⟩
  apply wp_busy (f := (·.withoutFilter topic)) ht
  intro _
  exact ⟨rfl, hstays.trans ⟨hst.stack_eq, hst.acks, hst.entries⟩⟩

/-- A publish succeeds and touches no record. -/
theorem wp_mqttPublish (hs : ¬ s.IsAtRest) :
    wp tallying (mqttPublish topic payload) (fun rc t => rc = .success ∧ s.Stays t) s := by
  apply wp_claimed_success (P := fun t => s.Stays t)
  intro _
  refine wp_ask_solo.mpr ⟨trivial, fun rc hrc => ?_⟩
  cases hrc rfl
  apply wp_busy (f := (·.log (.published topic payload))) hs
  intro _
  exact ⟨rfl, rfl, rfl, rfl⟩

end Requests

/-! ## Completing a record -/

namespace World

variable {s t : World} {topic : List UInt8}

@[simp] theorem ackWaitList_released (w : World) (topic : List UInt8) :
    (w.released topic).ackWaitList = w.ackWaitList := by
  unfold released
  split <;> rfl

@[simp] theorem stack_released (w : World) (topic : List UInt8) :
    (w.released topic).stack = w.stack := by
  unfold released
  split <;> rfl

/-- Freeing a record depends on the records alone. -/
theorem freeAck_congr (h : t.ackWaitList = s.ackWaitList) (i : AckIndex) :
    (t.freeAck i).ackWaitList = (s.freeAck i).ackWaitList := by
  simp only [freeAck, setAck, h]

/-- Releasing a topic depends on the entries alone. -/
theorem released_congr (h : t.subscriptionList = s.subscriptionList) :
    (t.released topic).subscriptionList = (s.released topic).subscriptionList := by
  have hfind : t.findIndexOfSubscriptionList topic = s.findIndexOfSubscriptionList topic := by
    rw [findIndexOfSubscriptionList, h, findIndexOfSubscriptionList]
  unfold released
  rw [hfind]
  split
  next => exact h
  next k _ =>
      change Function.update t.subscriptionList k _ = Function.update s.subscriptionList k _
      rw [h]

end World

section Completing

variable {fuel : Nat} {call : Procedure → M IotError} {s : World} {topic : List UInt8}
  {i : AckIndex} {status : AckStatus}

/-- Releasing a topic counts its entry down, and frees it with the last user. -/
theorem wp_releaseTopic (hs : ¬ s.IsAtRest) :
    wp tallying (releaseTopic fuel call topic) (fun _ t => (s.released topic).Stays t) s := by
  apply wp_get_busy hs
  unfold World.released
  cases hfind : s.findIndexOfSubscriptionList topic with
  | none => exact .refl s
  | some k =>
      dsimp only [World.onSubscription, SubscriptionRecord.released]
      split
      next hlast =>
          rw [wp_bind]
          apply wp_mono _ (wp_mqttUnsubscribe hs)
          rintro _ t ⟨rfl, hstays⟩
          have ht := (World.isAtRest_congr hstays.stack_eq).not.mpr hs
          apply wp_busy ht
          intro _
          refine ⟨hstays.stack_eq, hstays.acks, ?_⟩
          change Function.update t.subscriptionList k _ = Function.update s.subscriptionList k _
          rw [hstays.entries]
      next =>
          split
          next =>
              apply wp_busy hs
              exact fun _ => .refl _
          next => exact ⟨rfl, rfl, (Function.update_eq_self ..).symm⟩

/-- Both topics of a record are released. -/
theorem wp_unsubscribeFromAcceptedAndRejected (hs : ¬ s.IsAtRest) :
    wp tallying (unsubscribeFromAcceptedAndRejected fuel call i)
      (fun _ t => ((s.released (s.ackWaitList i).target.accepted).released
        (s.ackWaitList i).target.rejected).Stays t) s := by
  have hentered := World.not_isAtRest_enter hs (.releasing i)
  apply wp_framedVoid
  intro _
  refine ⟨fun hrest => absurd hrest hentered, ?_⟩
  apply wp_get_busy hentered
  rw [wp_bind]
  apply wp_mono _ (wp_releaseTopic hentered)
  intro _ t ht
  have hstack : t.stack = (s.log (.enter (.releasing i))).stack := by
    rw [ht.stack_eq, World.stack_released]
  apply wp_mono _ (wp_releaseTopic ((World.isAtRest_congr hstack).not.mpr hentered))
  intro _ u hu _
  have hleft : (u.log (.leave (.releasing i) .success)).stack = s.stack := by
    rw [World.stack_log_leave, hu.stack_eq, World.stack_released, hstack]
    rfl
  refine ⟨fun hrest => absurd hrest ((World.isAtRest_congr hleft).not.mpr hs), ?_, ?_, ?_⟩
  · rw [hleft, World.stack_released, World.stack_released]
  · change u.ackWaitList = _
    rw [hu.acks, World.ackWaitList_released, ht.acks, World.ackWaitList_released,
      World.ackWaitList_released, World.ackWaitList_released]
    rfl
  · change u.subscriptionList = _
    rw [hu.entries]
    apply World.released_congr
    rw [ht.entries]
    exact World.released_congr rfl

/-- In the middle of an operation no calls can be made. -/
theorem staying_api (fuel : Nat) (c : Call) : Staying (api fuel (.call c)) := by
  cases fuel with
  | zero => exact fun _ _ => trivial
  | succ fuel =>
      intro s hs
      apply wp_framed
      intro hmay
      refine absurd ?_ hs
      rw [World.IsAtRest, (hmay.calls c rfl).1]
      exact fun f hf => absurd hf List.not_mem_nil

/-- The callback of a record leaves the tables alone. -/
theorem staying_answerRecord (hcall : ∀ c, Staying (call (.call c))) (i : AckIndex)
    (status : AckStatus) : Staying (answerRecord fuel call i status) :=
  walks_staying.answerRecord (fun _ => rfl) (fun _ => trivial) hcall

/-- The tally is right behind the completion of a record. -/
theorem isTallied_of_completes {t : World} {f : Frame} (hs : s.IsTallied)
    (hused : (s.ackWaitList i).isFree = false) (hstack : t.stack = f :: s.stack)
    (hacks : t.ackWaitList = (s.freeAck i).ackWaitList)
    (hentries : t.subscriptionList = ((s.released (s.ackWaitList i).target.accepted).released
      (s.ackWaitList i).target.rejected).subscriptionList) (rc : IotError) :
    (t.log (.leave f rc)).IsTallied ∧ s.Dwindles (t.log (.leave f rc)) := by
  have hcompletes : s.Completes (t.log (.leave f rc)) i :=
    ⟨by rw [World.stack_log_leave, hstack, List.tail_cons], hacks, hentries⟩
  exact ⟨hcompletes.isTallied hused hs, hcompletes.dwindles hused hs⟩

/-- Completing a record for a response keeps the tally. -/
theorem wp_completeAck_tallied (hcall : ∀ c, Staying (call (.call c))) (hs : s.IsTallied)
    (hused : (s.ackWaitList i).isFree = false) :
    wp tallying (completeAck fuel call i status) (fun _ t => t.IsTallied ∧ s.Dwindles t) s := by
  have hbusy := World.not_isAtRest_of_isTable (s := s) (f := .completing i status) rfl
  apply wp_framedVoid
  intro _
  refine ⟨fun hrest => absurd hrest hbusy, ?_⟩
  rw [wp_bind]
  apply wp_mono _ (staying_answerRecord hcall i status _ hbusy)
  rintro _ t ⟨ht, hanswered⟩
  rw [wp_bind]
  apply wp_mono _ (wp_unsubscribeFromAcceptedAndRejected ht)
  intro _ u hreleased
  have hstack : u.stack = .completing i status :: s.stack := by
    rw [hreleased.stack_eq, World.stack_released, World.stack_released, hanswered.stack_eq]
    rfl
  have hacks : u.ackWaitList = s.ackWaitList := by
    rw [hreleased.acks, World.ackWaitList_released, World.ackWaitList_released, hanswered.acks]
    rfl
  have hentries : u.subscriptionList = ((s.released (s.ackWaitList i).target.accepted).released
      (s.ackWaitList i).target.rejected).subscriptionList := by
    have hsame : t.ackWaitList i = s.ackWaitList i := congrFun hanswered.acks i
    rw [hreleased.entries, hsame]
    exact World.released_congr (World.released_congr hanswered.entries)
  have hu : ¬ (u.freeAck i).IsAtRest :=
    (World.isAtRest_congr (s := s.log (.enter (.completing i status))) hstack).not.mpr hbusy
  apply wp_busy hu
  intro _ _
  have hdone := isTallied_of_completes (t := u.freeAck i) hs hused hstack
    (World.freeAck_congr hacks i) hentries .success
  exact ⟨fun _ => hdone.1, hdone⟩

/-- Completing it for its timer does as well. -/
theorem wp_completeExpired_tallied (hcall : ∀ c, Staying (call (.call c))) (hs : s.IsTallied)
    (hused : (s.ackWaitList i).isFree = false) :
    wp tallying (completeExpired fuel call i) (fun _ t => t.IsTallied ∧ s.Dwindles t) s := by
  have hbusy := World.not_isAtRest_of_isTable (s := s) (f := .completing i .timeout) rfl
  apply wp_framedVoid
  intro _
  refine ⟨fun hrest => absurd hrest hbusy, ?_⟩
  rw [wp_bind]
  apply wp_mono _ (staying_answerRecord hcall i .timeout _ hbusy)
  rintro _ t ⟨ht, hanswered⟩
  have hfreed : ¬ (t.freeAck i).IsAtRest := ht
  apply wp_busy hfreed
  intro _
  apply wp_mono _ (wp_unsubscribeFromAcceptedAndRejected hfreed)
  intro _ u hreleased _
  have hacks : (t.freeAck i).ackWaitList = (s.freeAck i).ackWaitList :=
    World.freeAck_congr hanswered.acks i
  have htarget : ((t.freeAck i).ackWaitList i).target = (s.ackWaitList i).target := by
    rw [hacks]
    simp [World.freeAck, World.setAck, AckRecord.target, AckRecord.thingText]
  have hdone := isTallied_of_completes (t := u) (f := .completing i .timeout) hs hused
    (by
      rw [hreleased.stack_eq, World.stack_released, World.stack_released]
      exact hanswered.stack_eq)
    (by rw [hreleased.acks, World.ackWaitList_released, World.ackWaitList_released, hacks])
    (by
      rw [hreleased.entries, htarget]
      exact World.released_congr (World.released_congr hanswered.entries)) .success
  exact ⟨fun _ => hdone.1, hdone⟩

end Completing

/-! ## Incoming messages -/

def Frame.isSubscribing : Frame → Bool
  | .subscribing .. => true
  | _ => false

namespace World

variable {s t : World} {f : Frame} {k : SubscriptionIndex}

/-- Another frame fills no entries. -/
theorem isFilling_enter (hf : f.isSubscribing = false) :
    (s.log (.enter f)).IsFilling k ↔ s.IsFilling k := by
  apply exists_congr
  intro p
  apply exists_congr
  intro a
  apply exists_congr
  intro r
  rw [stack_log_enter, List.mem_cons, or_iff_right]
  rintro rfl
  cases hf

/-- Entering such a frame keeps the tally. -/
theorem IsTallied.enter (hs : s.IsTallied) (hf : f.isSubscribing = false) :
    (s.log (.enter f)).IsTallied := hs.congr rfl rfl fun _ => isFilling_enter hf

/-- Leaving it does as well. -/
theorem IsTallied.leave {g : Frame} (ht : t.IsTallied) (hf : f.isSubscribing = false)
    (hstack : t.stack = f :: s.stack) (rc : IotError) : (t.log (.leave g rc)).IsTallied := by
  refine ht.congr (t := t.log _) rfl rfl fun k => ?_
  have hleft : (t.log (.leave g rc)).stack = s.stack := by
    rw [stack_log_leave, hstack, List.tail_cons]
  rw [isFilling_congr hleft, ← isFilling_enter hf]
  exact (isFilling_congr hstack).symm

theorem Dwindles.leave (hf : f.isSubscribing = false) (h : (s.log (.enter f)).Dwindles t)
    (rc : IotError) :
    s.Dwindles (t.log (.leave f rc)) where
  stack_eq := by
    rw [stack_log_leave, h.stack_eq]
    rfl
  filled := fun k hk => h.filled k ((isFilling_enter hf).mpr hk)
  topics := h.topics
  records := h.records

end World

/-- Programs that keep the tally while something is in progress, and what is being filled. -/
abbrev Hearing {α : Type} (p : M α) : Prop :=
  Preserves tallying (fun s => s.IsTallied ∧ s.stack ≠ []) World.Dwindles p

/-- Programs that complete records at most may be put together. -/
theorem walks_hearing : Walks (Frame.isSubscribing · = false) (Part.isOutside · = true)
    fun _ p => Hearing p := by
  apply walks_preserves World.Dwindles.refl (fun _ _ _ h h' => h.trans h') (fun _ _ _ => trivial)
    (fun _ _ => trivial) (fun s hs _ => hs.1)
  · intro part s t hpart hchange hs _
    have hstays := World.stays_of_changesTo hpart hchange
    have ht := hstays.isTallied hs.1
    exact ⟨fun _ => ht, ⟨ht, hstays.stack_eq ▸ hs.2⟩, hstays.dwindles⟩
  · intro f s hf hs _
    have ht := hs.1.enter hf
    exact ⟨fun _ => ht, ht, List.cons_ne_nil _ _⟩
  · intro f s t rc hf hs _ ht hdwindles _
    have hleft : (t.log (.leave f rc)).IsTallied := ht.1.leave hf hdwindles.stack_eq rc
    have hdwindles' := hdwindles.leave hf rc
    exact ⟨fun _ => hleft, ⟨hleft, hdwindles'.stack_eq ▸ hs.2⟩, hdwindles'⟩

/-- The operations on the MQTT client complete records at most. -/
theorem clientWalks_hearing : ClientWalks (Frame.isSubscribing · = false) (Part.isOutside · = true)
    fun _ p => Hearing p :=
  { walks_hearing with
    formerLocal := rfl
    handlers := rfl
    unsubscribe := fun _ => rfl
    published := fun _ _ => rfl }

section Messages

variable {fuel : Nat} {call : Procedure → M IotError}

/-- Asking one record completes that one at most. -/
theorem hearing_ackRecord (hcall : ∀ c, Staying (call (.call c))) (m : MessageRef)
    (token : List UInt8) (i : AckIndex) : Hearing (ackRecord fuel call m token i) := by
  intro s hs
  apply wp_ackRecord (fun _ _ => trivial) (fun _ => hs.1)
  · exact ⟨hs, .refl s⟩
  · intro status hawaits _
    apply wp_mono _ (wp_completeAck_tallied hcall hs.1 hawaits.1)
    rintro _ t ⟨ht, hdwindles⟩
    exact ⟨⟨ht, hdwindles.stack_eq ▸ hs.2⟩, hdwindles⟩

/-- A step that leaves the tables alone completes nothing. -/
theorem hearing_stays {α : Type} {v : World → α} {f : World → World}
    (h : ∀ s : World, s.Stays (f s)) : Hearing (Program.atomically v f) := by
  intro s hs
  have ht := (h s).isTallied hs.1
  exact wp_act_solo.mpr fun _ =>
    ⟨fun _ => ht, ⟨ht, (h s).stack_eq ▸ hs.2⟩, (h s).dwindles⟩

/-- The handler of acknowledgements completes records at most. -/
theorem hearing_ackStatusCallback (hcall : ∀ c, Staying (call (.call c))) (m : MessageRef) :
    Hearing (ackStatusCallback fuel call m) := by
  apply walks_hearing.framedVoid rfl
  apply clientWalks_hearing.ackStatusBody rfl (hearing_ackRecord hcall m)
  intro tokenCount
  apply hearing_stays
  intro s
  unfold World.withResponseVersion
  split <;> exact ⟨rfl, rfl, rfl⟩

/-- The handler of deltas completes none itself. -/
theorem hearing_shadowDeltaCallback (hcall : ∀ proc, Hearing (call proc)) (m : MessageRef) :
    Hearing (shadowDeltaCallback fuel call m) := by
  apply walks_hearing.framedVoid rfl
  apply clientWalks_hearing.shadowDeltaBody rfl
  · intro tokenCount
    apply hearing_stays
    intro s
    unfold World.withDeltaVersion
    split <;> exact ⟨rfl, rfl, rfl⟩
  · exact clientWalks_hearing.dispatchKey hcall (fun _ _ => rfl) (fun _ _ _ => rfl) fun _ => rfl

/-- Whatever arrives, it finds something in progress: callbacks make no calls. -/
theorem hearing_api (fuel : Nat) (proc : Procedure) : Hearing (api fuel proc) := by
  induction fuel generalizing proc with
  | zero => exact fun _ _ => trivial
  | succ fuel ih =>
      cases proc with
      | call c =>
          intro s hs
          apply wp_framed
          intro hmay
          exact absurd (hmay.calls c rfl).1 hs.2
      | receive packet =>
          exact clientWalks_hearing.receivePacket (fun _ => rfl) (fun _ => rfl) rfl
            (hearing_ackStatusCallback (staying_api fuel)) (hearing_shadowDeltaCallback ih)
            (fun c => ih (.call c)) packet

end Messages

end MqttClient.Shadow
