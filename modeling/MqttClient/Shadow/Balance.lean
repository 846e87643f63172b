import MqttClient.Shadow.Script
import MqttClient.Shadow.Tallies

/-! # A pair of entries for every action

Where every subscribe, unsubscribe and publish succeeds and nothing runs in the middle
of an unsubscribe, the list of subscriptions holds a pair of entries for every action
that is waited for, which counts its records, and nothing else.
-/

namespace MqttClient.Shadow

open Effect Program

/-! ## Filling a pair of entries -/

namespace World

/-- In the middle of filling the entries `a` and `r` for the action `p`, which began in `s`
and for which the record `i` has been chosen. -/
structure Fills (s u : World) (p : Target) (a r : SubscriptionIndex) (i : AckIndex) : Prop where
  stack_eq : u.stack = .subscribing p a r :: s.stack
  tallied : u.IsTallied
  unwaited : u.waiting p = 0
  isFree : (u.ackWaitList i).isFree = true
  topics : ∀ l, l ≠ a → l ≠ r → (u.subscriptionList l).topic = (s.subscriptionList l).topic

variable {s t u : World} {p : Target} {a r k : SubscriptionIndex} {i : AckIndex}

theorem Fills.isFilling (h : s.Fills u p a r i) (hk : k = a ∨ k = r) : u.IsFilling k :=
  ⟨p, a, r, h.stack_eq ▸ List.mem_cons_self, hk⟩

/-- These two entries are the only ones that are being filled. -/
theorem Fills.isFilling_iff (h : s.Fills u p a r i) (hs : ∀ k, ¬ s.IsFilling k) :
    u.IsFilling k ↔ k = a ∨ k = r := by
  refine ⟨?_, h.isFilling⟩
  rintro ⟨p', a', r', hmem, hk⟩
  rw [h.stack_eq, List.mem_cons] at hmem
  rcases hmem with heq | hmem
  · cases heq
    exact hk
  · exact absurd ⟨p', a', r', hmem, hk⟩ (hs k)

/-- What arrives meanwhile does not disturb the filling. -/
theorem Fills.dwindles (h : s.Fills u p a r i) (ht : t.IsTallied) (hut : u.Dwindles t) :
    s.Fills t p a r i where
  stack_eq := hut.stack_eq.trans h.stack_eq
  tallied := ht
  unwaited := Nat.eq_zero_of_le_zero ((hut.waiting_le p).trans_eq h.unwaited)
  isFree := hut.isFree h.isFree
  topics := fun l ha hr => (hut.topics l).trans (h.topics l ha hr)

/-- One of the entries gets another value. -/
theorem Fills.onSubscription (h : s.Fills u p a r i) (hp : p.IsShort) (hk : k = a ∨ k = r)
    {f : SubscriptionRecord → SubscriptionRecord}
    (hf : (f (u.subscriptionList k)).topic = (u.subscriptionList k).topic ∨
      (f (u.subscriptionList k)).topic = p.accepted ∨
      (f (u.subscriptionList k)).topic = p.rejected) :
    s.Fills (u.onSubscription k f) p a r i := by
  have hother {l : SubscriptionIndex} (ha : l ≠ a) (hr : l ≠ r) :
      (u.onSubscription k f).subscriptionList l = u.subscriptionList l := by
    apply Function.update_of_ne
    rintro rfl
    rcases hk with heq | heq
    · exact ha heq
    · exact hr heq
  refine ⟨h.stack_eq, ?_, h.unwaited, h.isFree, ?_⟩
  · apply h.tallied.filling (t := u.onSubscription k f) hp h.unwaited rfl (fun _ => hother) _
      (fun _ _ _ => Iff.rfl) (fun _ => h.isFilling) fun _ hl _ => h.isFilling hl
    intro l
    by_cases hl : l = k
    · subst hl
      rw [onSubscription_self]
      exact hf
    · rw [onSubscription_of_ne u hl]
      exact .inl rfl
  · intro l ha hr
    rw [hother ha hr]
    exact h.topics l ha hr

/-- When the action waits in the record the tally is right. -/
def Expects (t : World) (i : AckIndex) (p : Target) : Prop :=
  ∀ (u : World) (token : List UInt8) (callback : CallbackName) (context : Nat),
    u.stack = t.stack → u.subscriptionList = t.subscriptionList →
      u.ackWaitList = (t.addToAckWaitList i p token callback context).ackWaitList → u.IsTallied

structure IsFilled (w : World) (k : SubscriptionIndex) (topic : List UInt8) : Prop where
  uses : w.Uses k
  topic_eq : (w.subscriptionList k).topic = topic
  count_eq : (w.subscriptionList k).count = 1
  notSticky : (w.subscriptionList k).isSticky = false

theorem IsFilled.congr {topic : List UInt8} (h : u.IsFilled k topic)
    (heq : t.subscriptionList k = u.subscriptionList k) : t.IsFilled k topic :=
  ⟨by rw [Uses, heq]; exact h.uses, by rw [heq, h.topic_eq], by rw [heq, h.count_eq],
    by rw [heq, h.notSticky]⟩

/-- Once both are filled, a record may be added for the pair. -/
theorem Fills.expects (h : s.Fills u p a r i) (hp : p.IsShort) (hs : ∀ k, ¬ s.IsFilling k)
    (hlt : a < r) (hfirst : ∀ l < r, l ≠ a →
      (s.subscriptionList l).topic ≠ p.accepted ∧ (s.subscriptionList l).topic ≠ p.rejected)
    (ha : u.IsFilled a p.accepted) (hr : u.IsFilled r p.rejected) (hstack : t.stack = s.stack)
    (hentries : t.subscriptionList = u.subscriptionList) (hacks : t.ackWaitList = u.ackWaitList) :
    t.Expects i p := by
  intro w token callback context hwstack hwentries hwacks
  have hsettled (k : SubscriptionIndex) : ¬ w.IsFilling k :=
    (isFilling_congr (hwstack.trans hstack)).not.mpr (hs k)
  have heq (k : SubscriptionIndex) : w.subscriptionList k = u.subscriptionList k :=
    congrFun (hwentries.trans hentries) k
  -- an entry that was filled is the first one for its topic
  have hentry {k : SubscriptionIndex} {topic : List UInt8} (hk : u.IsFilled k topic)
      (hbefore : ∀ l < k, (u.subscriptionList l).topic ≠ topic) :
      w.IsEntry k topic (u.waiting p + 1) := by
    have hk' := hk.congr (heq k)
    refine ⟨hk'.uses, hsettled k, hk'.topic_eq, ?_, hk'.notSticky, fun l hl => ?_⟩
    · rw [hk'.count_eq, h.unwaited]
      rfl
    · rw [heq]
      exact hbefore l hl
  have hadded : w.ackWaitList = (u.addToAckWaitList i p token callback context).ackWaitList := by
    rw [hwacks]
    simp only [addToAckWaitList, setAck, hacks]
  refine h.tallied.joined hp h.isFree hadded (fun k _ _ => heq k) (fun k => by rw [heq]) ?_
    (hentry ha ?_) (hentry hr ?_) ?_ ?_
  · intro k hka hkr
    rw [h.isFilling_iff hs]
    exact iff_of_false (hsettled k) (not_or.mpr ⟨hka, hkr⟩)
  · intro l hl
    rw [h.topics l hl.ne (hl.trans hlt).ne]
    exact (hfirst l (hl.trans hlt) hl.ne).1
  · intro l hl
    by_cases hla : l = a
    · rw [hla, ha.topic_eq]
      exact Target.accepted_ne_rejected hp hp
    · rw [h.topics l hla hl.ne]
      exact (hfirst l hl hla).2
  · exact fun k hk _ hnot => absurd (h.isFilling hk) hnot
  · exact fun a' r' hpair => absurd hpair (h.tallied.not_isPair hp h.unwaited)

theorem stack_withSubscriptionTaken (w : World) : w.withSubscriptionTaken.stack = w.stack := by
  unfold withSubscriptionTaken
  split <;> rfl

theorem ackWaitList_withSubscriptionTaken (w : World) :
    w.withSubscriptionTaken.ackWaitList = w.ackWaitList := by
  unfold withSubscriptionTaken
  split <;> rfl

/-- The world in which filling two entries that were taken has begun. -/
theorem fills_taken (hs : s.IsTallied) (hp : p.IsShort) (hsettled : ∀ k, ¬ s.IsFilling k)
    (hzero : s.waiting p = 0) (hfree : (s.ackWaitList i).isFree = true) (hlt : a < r)
    (ha : s.freeSubscription = some a) (hr : s.withSubscriptionTaken.freeSubscription = some r)
    (hentries : s.withSubscriptionTaken.withSubscriptionTaken.subscriptionList =
      Function.update (Function.update s.subscriptionList a
        { s.subscriptionList a with isFree := false }) r
        { s.subscriptionList r with isFree := false }) :
    s.Fills (s.withSubscriptionTaken.withSubscriptionTaken.log (.enter (.subscribing p a r)))
      p a r i := by
  have hstack : (s.withSubscriptionTaken.withSubscriptionTaken.log
      (.enter (.subscribing p a r))).stack = .subscribing p a r :: s.stack := by
    rw [stack_log_enter, stack_withSubscriptionTaken, stack_withSubscriptionTaken]
  have hacks : s.withSubscriptionTaken.withSubscriptionTaken.ackWaitList = s.ackWaitList := by
    rw [ackWaitList_withSubscriptionTaken, ackWaitList_withSubscriptionTaken]
  -- both entries are being filled from now on
  have hown {k : SubscriptionIndex} (hk : k = a ∨ k = r) :
      (s.withSubscriptionTaken.withSubscriptionTaken.log
        (.enter (.subscribing p a r))).IsFilling k :=
    ⟨p, a, r, hstack ▸ List.mem_cons_self, hk⟩
  have htopics (k : SubscriptionIndex) :
      (s.withSubscriptionTaken.withSubscriptionTaken.subscriptionList k).topic =
        (s.subscriptionList k).topic := by
    rw [hentries]
    -- taking an entry does not touch its topic
    by_cases hkr : k = r
    · rw [hkr, Function.update_self]
    · rw [Function.update_of_ne hkr]
      by_cases hka : k = a
      · rw [hka, Function.update_self]
      · rw [Function.update_of_ne hka]
  refine ⟨hstack, ?_, (waiting_congr hacks p).trans hzero, ?_, fun l _ _ => htopics l⟩
  · apply hs.filling (a := a) (r := r) (t := World.log _ _) hp hzero hacks _
      (fun k => .inl (htopics k)) _ (fun k => hown)
    · rintro k (rfl | rfl) huses
      · rw [Uses, (firstIndex_eq_some_iff.mp ha).1] at huses
        cases huses
      · have hfree := (firstIndex_eq_some_iff.mp hr).1
        rw [subscriptionList_withSubscriptionTaken ha, Function.update_of_ne hlt.ne'] at hfree
        rw [Uses, hfree] at huses
        cases huses
    · intro k hka hkr
      change s.withSubscriptionTaken.withSubscriptionTaken.subscriptionList k = _
      rw [hentries, Function.update_of_ne hkr, Function.update_of_ne hka]
    · intro k hka hkr
      refine iff_of_false ?_ (hsettled k)
      rintro ⟨p', a', r', hmem, hk⟩
      rw [hstack, List.mem_cons] at hmem
      rcases hmem with heq | hmem
      · cases heq
        exact hk.elim hka hkr
      · exact hsettled k ⟨p', a', r', hmem, hk⟩
  · change (s.withSubscriptionTaken.withSubscriptionTaken.ackWaitList i).isFree = true
    rw [hacks, hfree]

/-- What stays does not spoil the pair. -/
theorem Stays.expects (h : s.Stays t) (hs : s.Expects i p) : t.Expects i p := by
  intro u token callback context hstack hentries hacks
  refine hs u token callback context (hstack.trans h.stack_eq) (hentries.trans h.entries) ?_
  rw [hacks]
  simp only [addToAckWaitList, setAck, h.acks]

end World

section Filling

variable {fuel : Nat} {call : Procedure → M IotError} {s u : World} {p : Target}
  {a r k : SubscriptionIndex} {i : AckIndex} {topic : List UInt8}

/-- A world that tallies may be looked at. -/
theorem wp_get_tallied {α : Type} {k : World → M α} {s : World} {Φ : α → World → Prop}
    (hs : s.IsTallied) (h : wp tallying (k s) Φ s) : wp tallying (Program.get >>= k) Φ s :=
  wp_act_solo.mpr fun _ => ⟨fun _ => hs, h⟩

/-- A subscribe succeeds; what comes in meanwhile completes records at most. -/
theorem wp_mqttSubscribe (hcall : ∀ packet, Hearing (call (.receive packet)))
    {buffer : TopicBuffer} {handler : Handler} (hs : s.IsTallied) (hstack : s.stack ≠ []) :
    wp tallying (mqttSubscribe fuel call buffer handler)
      (fun rc t => rc = .success ∧ t.IsTallied ∧ s.Dwindles t) s := by
  apply wp_get_tallied hs
  apply wp_claimed_success (P := fun t => t.IsTallied ∧ s.Dwindles t)
  intro hserve
  apply wp_get_tallied hs
  split
  next hnone => exact absurd hnone hserve
  next j _ =>
      change wp tallying (waitFor fuel call _ >>= fun rc => _) _ _
      rw [wp_bind]
      apply wp_mono _ (wp_waitFor_message rfl World.Dwindles.refl
        (fun _ _ _ h h' => World.Dwindles.trans h h') (fun _ => hcall) ⟨hs, hstack⟩)
      rintro _ t ⟨rfl, ⟨ht, -⟩, hst⟩
      have hstays (sub : Subscription) : t.Stays (t.setHandler j sub) := ⟨rfl, rfl, rfl⟩
      apply wp_act_solo.mpr
      intro _
      exact ⟨fun _ => (hstays _).isTallied ht, rfl, (hstays _).isTallied ht,
        hst.trans (hstays _).dwindles⟩

/-- An entry is filled for one of the topics of the action. -/
theorem wp_subscribeEntry (hcall : ∀ packet, Hearing (call (.receive packet))) (hp : p.IsShort)
    (hu : s.Fills u p a r i) (hk : k = a ∨ k = r)
    (htopic : topic = p.accepted ∨ topic = p.rejected) :
    wp tallying (subscribeEntry fuel call k topic false) (fun rc t => rc = .success ∧
      s.Fills t p a r i ∧
      t.subscriptionList k =
        { u.subscriptionList k with topic := topic, count := 1, isSticky := false } ∧
      ∀ l, l = a ∨ l = r → l ≠ k → t.subscriptionList l = u.subscriptionList l) u := by
  have hprinted := hu.onSubscription hp hk (f := fun r => { r with topic := topic }) (.inr htopic)
  apply wp_act_solo.mpr
  intro _
  refine ⟨fun _ => hprinted.tallied, ?_⟩
  change wp tallying (mqttSubscribe fuel call (.subscriptionList k) .ackStatusCallback >>=
    fun rc => _) _ _
  rw [wp_bind]
  have hstack : (u.onSubscription k fun r => { r with topic := topic }).stack ≠ [] := by
    rw [hprinted.stack_eq]
    exact List.cons_ne_nil _ _
  apply wp_mono _ (wp_mqttSubscribe hcall hprinted.tallied hstack)
  rintro _ t ⟨rfl, ht, hdwindles⟩
  have hheard := hprinted.dwindles ht hdwindles
  have hdone := hheard.onSubscription hp hk (f := fun r => { r with count := 1, isSticky := false })
    (.inl rfl)
  apply wp_act_solo.mpr
  intro _
  refine ⟨fun _ => hdone.tallied, rfl, hdone, ?_, ?_⟩
  · rw [World.onSubscription_self, hdwindles.filled k (hprinted.isFilling hk),
      World.onSubscription_self]
  · intro l hl hlk
    rw [World.onSubscription_of_ne t hlk, hdwindles.filled l (hprinted.isFilling hl),
      World.onSubscription_of_ne u hlk]

/-- Two free entries are taken and filled, and may then be counted on. -/
theorem wp_subscribeEntries (hcall : ∀ packet, Hearing (call (.receive packet))) (hp : p.IsShort)
    (hs : s.IsTallied) (hbusy : ¬ s.IsAtRest) (hsettled : ∀ k, ¬ s.IsFilling k)
    (hzero : s.waiting p = 0) (hfree : (s.ackWaitList i).isFree = true)
    (ha : s.freeSubscription = some a)
    (hr : s.withSubscriptionTaken.freeSubscription = some r) :
    wp tallying (subscribeEntries fuel call p false a r) (fun rc t => rc = .success ∧
      t.stack = s.stack ∧ (t.ackWaitList i).isFree = true ∧ t.Expects i p)
      s.withSubscriptionTaken.withSubscriptionTaken := by
  obtain ⟨hlt, hfirst⟩ := hs.first hsettled hp hzero ha hr
  have htaken := World.subscriptionList_withSubscriptionTaken hr
  rw [World.subscriptionList_withSubscriptionTaken ha, Function.update_of_ne hlt.ne'] at htaken
  have hu := World.fills_taken hs hp hsettled hzero hfree hlt ha hr htaken
  apply wp_framed
  intro _
  refine ⟨fun _ => hu.tallied, ?_⟩
  rw [wp_bind]
  apply wp_mono _ (wp_subscribeEntry hcall hp hu (.inl rfl) (.inl rfl))
  rintro _ t ⟨rfl, ht, hta, htr⟩
  change wp tallying (subscribeEntry fuel call r p.rejected false >>= fun rc => _) _ _
  rw [wp_bind]
  apply wp_mono _ (wp_subscribeEntry hcall hp ht (.inr rfl) (.inr rfl))
  rintro _ v ⟨rfl, hv, hvr, hva⟩
  change wp tallying (settle fuel >>= fun _ => _) _ _
  rw [wp_bind]
  -- both subscriptions are made; the wait behind them drops none of them
  have hstack : v.stack ≠ [] := by
    rw [hv.stack_eq]
    exact List.cons_ne_nil _ _
  apply wp_mono _ (walks_hearing.settle v ⟨hv.tallied, hstack⟩)
  rintro _ x ⟨⟨hx, -⟩, hdwindles⟩ _
  have hfills := hv.dwindles hx hdwindles
  have hleft : (x.log (.leave (.subscribing p a r) .success)).stack = s.stack := by
    rw [World.stack_log_leave, hfills.stack_eq, List.tail_cons]
  -- what the first filled in is still there
  have haccepted : x.IsFilled a p.accepted := by
    have hvalue : x.subscriptionList a =
        { s.subscriptionList a with
          isFree := false, topic := p.accepted, count := 1, isSticky := false } := by
      rw [hdwindles.filled a (hv.isFilling (.inl rfl)), hva a (.inl rfl) hlt.ne, hta]
      change { s.withSubscriptionTaken.withSubscriptionTaken.subscriptionList a with
        topic := p.accepted, count := 1, isSticky := false } = _
      rw [htaken, Function.update_of_ne hlt.ne, Function.update_self]
    exact ⟨by rw [World.Uses, hvalue], by rw [hvalue], by rw [hvalue], by rw [hvalue]⟩
  have hrejected : x.IsFilled r p.rejected := by
    have hvalue : x.subscriptionList r =
        { s.subscriptionList r with
          isFree := false, topic := p.rejected, count := 1, isSticky := false } := by
      rw [hdwindles.filled r (hv.isFilling (.inr rfl)), hvr, htr r (.inr rfl) hlt.ne']
      change { s.withSubscriptionTaken.withSubscriptionTaken.subscriptionList r with
        topic := p.rejected, count := 1, isSticky := false } = _
      rw [htaken, Function.update_self]
    exact ⟨by rw [World.Uses, hvalue], by rw [hvalue], by rw [hvalue], by rw [hvalue]⟩
  refine ⟨fun hrest => absurd hrest ((World.isAtRest_congr hleft).not.mpr hbusy), rfl, hleft,
    hfills.isFree, ?_⟩
  exact hfills.expects hp hsettled hlt hfirst haccepted hrejected hleft rfl rfl

end Filling

/-! ## Actions -/

/-- An action is being made, and no entries are being filled. -/
structure World.IsActing (s : World) : Prop where
  tallied : s.IsTallied
  busy : ¬ s.IsAtRest
  settled : ∀ k, ¬ s.IsFilling k

section Actions

variable {fuel : Nat} {call : Procedure → M IotError} {s : World} {p : Target} {i : AckIndex}

/-- Awaiting acknowledgements ends with the pair subscribed and the record still free. -/
theorem wp_awaitAcks (hcall : ∀ packet, Hearing (call (.receive packet))) (hp : p.IsShort)
    (hs : s.IsActing) (hfree : (s.ackWaitList i).isFree = true) :
    wp tallying (awaitAcks fuel call p false) (fun rc t => rc = .success ∧
      t.stack = s.stack ∧ (t.ackWaitList i).isFree = true ∧ t.Expects i p) s := by
  apply wp_get_tallied hs.tallied
  have hpresent := hs.tallied.isSubscriptionPresent_iff hs.settled hp
  split
  next hp' =>
      apply wp_busy (f := (·.incrementSubscriptionCnt p false)) hs.busy
      intro _
      refine ⟨rfl, rfl, hfree, ?_⟩
      intro u token callback context hstack hentries hacks
      exact hs.tallied.incremented hs.settled hp hp' hfree hstack hacks hentries
  next hp' =>
      have hzero : s.waiting p = 0 :=
        Nat.eq_zero_of_not_pos fun hwaits => hp' (hpresent.mpr hwaits)
      obtain ⟨a, r, ha, hr⟩ := hs.tallied.room hs.settled hfree
      have htaken : ¬ s.withSubscriptionTaken.IsAtRest :=
        (World.isAtRest_congr s.stack_withSubscriptionTaken).not.mpr hs.busy
      have htaken' : ¬ s.withSubscriptionTaken.withSubscriptionTaken.IsAtRest :=
        (World.isAtRest_congr (World.stack_withSubscriptionTaken _)).not.mpr htaken
      apply wp_busy htaken
      intro _
      apply wp_busy htaken'
      intro _
      dsimp only
      rw [ha, hr]
      change wp tallying (subscribeEntries fuel call p false a r >>= fun rc => _) _ _
      rw [wp_bind]
      apply wp_mono _ (wp_subscribeEntries hcall hp hs.tallied hs.busy hs.settled hzero hfree ha hr)
      rintro _ t ⟨rfl, ht⟩
      exact ⟨rfl, ht⟩

/-- An action that is tracked leaves the counts in tally. -/
theorem wp_trackedAction (hcall : ∀ packet, Hearing (call (.receive packet))) (hp : p.IsShort)
    (hs : s.IsActing) {doc token : List UInt8} {callback : CallbackName} {context : Nat} :
    wp tallying (trackedAction fuel call p doc token callback context false)
      (fun _ t => t.IsTallied ∧ t.stack = s.stack) s := by
  apply wp_get_tallied hs.tallied
  split
  next => exact ⟨hs.tallied, rfl⟩
  next i hi =>
      have hfree : (s.ackWaitList i).isFree = true := (firstIndex_eq_some_iff.mp hi).1
      rw [wp_bind]
      apply wp_mono _ (wp_awaitAcks hcall hp hs hfree)
      rintro _ t ⟨rfl, hstack, -, hexpects⟩
      have ht := (World.isAtRest_congr hstack).not.mpr hs.busy
      change wp tallying (publishToShadowAction p doc >>= fun rc => _) _ _
      rw [wp_bind]
      apply wp_mono _ (wp_mqttPublish ht)
      rintro _ u ⟨rfl, hstays⟩
      have hu := (World.isAtRest_congr hstays.stack_eq).not.mpr ht
      apply wp_busy (f := fun w =>
        (w.addToAckWaitList i p token callback context).log (.awaited i p false)) hu
      intro _
      exact ⟨hstays.expects hexpects _ token callback context rfl rfl rfl,
        hstays.stack_eq.trans hstack⟩

/-- So does any action. -/
theorem wp_requestAction (hcall : ∀ packet, Hearing (call (.receive packet))) (hp : p.IsShort)
    (hs : s.IsActing) {args : ActionArgs} (hsticky : args.isSticky = false) (doc : List UInt8)
    (token : Option (List UInt8)) :
    wp tallying (requestAction fuel call args p doc token)
      (fun _ t => t.IsTallied ∧ t.stack = s.stack) s := by
  unfold requestAction
  split
  next =>
      rw [hsticky]
      exact wp_trackedAction hcall hp hs
  next =>
      apply wp_mono _ (wp_mqttPublish hs.busy)
      rintro _ t ⟨-, hstays⟩
      exact ⟨hstays.isTallied hs.tallied, hstays.stack_eq⟩

/-- Programs that keep the tally as steps of a call that the application makes. -/
abbrev Performing {α : Type} (p : M α) : Prop :=
  Preserves tallying (fun s => s.IsTallied ∧ ∃ c, s.stack = [.call c]) (fun _ _ => True) p

/-- Completing records is all right within an operation. -/
theorem Hearing.performing {α : Type} {p : M α} (h : Hearing p) : Performing p := by
  rintro s ⟨hs, c, hstack⟩
  apply wp_mono _ (h s ⟨hs, hstack ▸ List.cons_ne_nil _ _⟩)
  rintro _ t ⟨⟨ht, -⟩, hdwindles⟩
  exact ⟨⟨ht, c, hdwindles.stack_eq.trans hstack⟩, trivial⟩

/-- An action tallies in the end, whatever comes in meanwhile. -/
theorem performing_internalAction (hcall : ∀ packet, Hearing (call (.receive packet)))
    (args : ActionArgs) : Performing (internalAction fuel call args) := by
  rintro s ⟨hs, c, hstack⟩
  unfold internalAction
  split
  next thing doc hthing _ =>
      apply wp_act_solo.mpr
      intro hmay
      obtain ⟨hsticky, hshort⟩ := hmay.actions args _ rfl
      have hentered : (s.withRequest args doc.chars).stack =
          [.action args (s.requestToken doc.chars), .call c] := by
        rw [← hstack]
        rfl
      -- no call in progress fills an entry
      have hsettled (k : SubscriptionIndex) : ¬ (s.withRequest args doc.chars).IsFilling k := by
        rintro ⟨p, a, r, hmem, -⟩
        rw [hentered] at hmem
        simp at hmem
      have htallied : (s.withRequest args doc.chars).IsTallied := by
        refine hs.congr rfl rfl fun k => iff_of_false (hsettled k) ?_
        rintro ⟨p, a, r, hmem, -⟩
        rw [hstack] at hmem
        simp at hmem
      have hbusy : ¬ (s.withRequest args doc.chars).IsAtRest := by
        intro hrest
        have h := hrest (.action args (s.requestToken doc.chars)) (by simp [hentered])
        cases h
      refine ⟨fun _ => htallied, ?_⟩
      have hshort' := hshort thing hthing
      change wp tallying (requestAction fuel call args ⟨thing.chars, args.action⟩ doc.chars _ >>=
        fun rc => _) _ _
      rw [wp_bind]
      apply wp_mono _ (wp_requestAction hcall (p := ⟨thing.chars, args.action⟩) hshort'
        ⟨htallied, hbusy, hsettled⟩ hsticky doc.chars _)
      rintro rc t ⟨ht, hleaving⟩
      have hleft :
          (t.log (.leave (.action args (s.requestToken doc.chars)) rc)).IsTallied :=
        ht.leave (s := s) (f := .action args (s.requestToken doc.chars)) rfl
          (by rw [hleaving, hentered, hstack]) rc
      apply wp_act_solo.mpr
      intro _
      refine ⟨fun _ => hleft, ⟨hleft, c, ?_⟩, trivial⟩
      rw [World.stack_log_leave, hleaving, hentered, List.tail_cons]
  next => exact ⟨⟨hs, c, hstack⟩, trivial⟩

/-- Operations that tally in the end may be put together. -/
theorem walks_performing : Walks (fun _ => False) (Part.isOutside · = true)
    fun _ p => Performing p := by
  apply walks_preserves (fun _ => trivial) (fun _ _ _ _ _ => trivial) (fun _ _ _ => trivial)
    (fun _ _ => trivial) (fun s hs _ => hs.1)
  · rintro part s t hpart hchange ⟨hs, c, hstack⟩ _
    have hstays := World.stays_of_changesTo hpart hchange
    have ht := hstays.isTallied hs
    exact ⟨fun _ => ht, ⟨ht, c, hstays.stack_eq.trans hstack⟩, trivial⟩
  · exact fun _ _ hf => hf.elim
  · exact fun _ _ _ _ hf => hf.elim

theorem clientWalks_performing : ClientWalks (fun _ => False) (Part.isOutside · = true)
    fun _ p => Performing p :=
  { walks_performing with
    formerLocal := rfl
    handlers := rfl
    unsubscribe := fun _ => rfl
    published := fun _ _ => rfl }

/-- Expired records are completed one by one. -/
theorem performing_handleExpiredResponseCallbacks (hcall : ∀ c, Staying (call (.call c))) :
    Performing (handleExpiredResponseCallbacks fuel call) := by
  apply walks_performing.forEach
  intro i s hs
  apply wp_expired (fun _ _ => trivial) (fun _ => hs.1)
  · exact ⟨hs, trivial⟩
  · intro hused _
    apply wp_mono _ (wp_completeExpired_tallied hcall hs.1 hused)
    rintro _ t ⟨ht, hdwindles⟩
    obtain ⟨c, hstack⟩ := hs.2
    exact ⟨⟨ht, c, hdwindles.stack_eq.trans hstack⟩, trivial⟩

end Actions

/-! ## The application -/

/-- Between two calls of the application. -/
abbrev World.IsIdlyTallied (s : World) : Prop := s.IsTallied ∧ s.stack = []

/-- Every call of the application leaves the counts in tally. -/
theorem preserves_api (fuel : Nat) (c : Call) :
    Preserves tallying World.IsIdlyTallied (fun _ _ => True) (api fuel (.call c)) := by
  cases fuel with
  | zero => exact fun _ _ => trivial
  | succ fuel =>
      rintro s ⟨hs, hstack⟩
      apply wp_framed
      intro hmay
      have hconnect := (hmay.calls c rfl).2
      have hentered : (s.log (.enter (.call c))).stack = [.call c] := by
        rw [World.stack_log_enter, hstack]
      have hparts : ∀ part ∈ c.parts, part.isOutside = true := by
        cases c with
        | connect params => exact absurd rfl (hconnect params)
        | _ => simp [Call.parts, Part.isOutside]
      have hperform : Performing (perform fuel (api fuel) c) :=
        clientWalks_performing.perform
          (performing_internalAction fun packet => hearing_api fuel (.receive packet))
          (performing_handleExpiredResponseCallbacks (staying_api fuel))
          (fun proc => (hearing_api fuel proc).performing) hparts
      refine ⟨fun _ => hs.enter rfl, ?_⟩
      apply wp_mono _ (hperform _ ⟨hs.enter rfl, c, hentered⟩)
      rintro rc t ⟨⟨ht, c', hstack'⟩, -⟩ _
      have hleft : (t.log (.leave (.call c) rc)).IsTallied :=
        ht.leave (s := s) (f := .call c') rfl (by rw [hstack', hstack]) rc
      refine ⟨fun _ => hleft, ⟨hleft, ?_⟩, trivial⟩
      rw [World.stack_log_leave, hstack', List.tail_cons]

/-- So does the application as a whole. -/
theorem preserves_app (fuel : Nat) :
    Preserves tallying World.IsIdlyTallied (fun _ _ => True) (app fuel) := by
  have hwalks : Walks (fun _ => False) (fun _ => False)
      fun _ p => Preserves tallying World.IsIdlyTallied (fun _ _ => True) p :=
    walks_preserves (fun _ => trivial) (fun _ _ _ _ _ => trivial) (fun _ _ _ => trivial)
      (fun _ _ => trivial) (fun s hs _ => hs.1) (fun _ _ _ hpart => hpart.elim)
      (fun _ _ hf => hf.elim) fun _ _ _ _ hf => hf.elim
  exact hwalks.application fun c => preserves_api fuel c

namespace World

/-- No record is in use, no entry is, and nothing is in progress. -/
structure IsEmpty (w : World) : Prop where
  records : ∀ i, (w.ackWaitList i).isFree = true
  entries : ∀ k, (w.subscriptionList k).isFree = true
  stack_eq : w.stack = []

/-- For every action with waiting records there is just one entry for each of its topics,
which counts them; there is no other entry in use; and while a record is free, there are
two free entries. -/
structure IsBalanced (w : World) : Prop where
  pair : ∀ p, 0 < w.waiting p → ∃ a r,
    (∀ k, w.Uses k ∧ (w.subscriptionList k).topic = p.accepted ↔ k = a) ∧
      (∀ k, w.Uses k ∧ (w.subscriptionList k).topic = p.rejected ↔ k = r) ∧
        (w.subscriptionList a).count.toNat = w.waiting p ∧
          (w.subscriptionList r).count.toNat = w.waiting p
  others : ∀ k, w.Uses k → ∃ p, 0 < w.waiting p ∧
    ((w.subscriptionList k).topic = p.accepted ∨ (w.subscriptionList k).topic = p.rejected)
  room : ∀ i, (w.ackWaitList i).isFree = true → ∃ a r, w.freeSubscription = some a ∧
    w.withSubscriptionTaken.freeSubscription = some r

variable {w : World}

/-- Without records and entries there is nothing to count. -/
theorem IsEmpty.isTallied (h : w.IsEmpty) : w.IsTallied where
  pairs := by
    intro k huses
    rw [Uses, h.entries k] at huses
    cases huses
  needed := by
    intro p hwaits
    obtain ⟨i, hi⟩ := Finset.card_pos.mp hwaits
    obtain ⟨hused, -⟩ := mem_waitingFor.mp hi
    rw [h.records i] at hused
    cases hused

/-- What has been counted is all there is where no entries are being filled. -/
theorem IsTallied.isBalanced (h : w.IsTallied) (hrest : w.IsAtRest) : w.IsBalanced := by
  have hsettled (k : SubscriptionIndex) : ¬ w.IsFilling k := by
    rintro ⟨p, a, r, hmem, -⟩
    have hf := hrest _ hmem
    cases hf
  refine ⟨?_, ?_, fun i hfree => h.room hsettled hfree⟩
  · intro p hwaits
    obtain ⟨hp, a, r, hpair⟩ := h.needed p hwaits
    refine ⟨a, r, fun k => ⟨?_, ?_⟩, fun k => ⟨?_, ?_⟩, hpair.accepted.count_eq,
      hpair.rejected.count_eq⟩
    · rintro ⟨huses, htopic⟩
      obtain ⟨-, r', hpair'⟩ := h.exists_pair_of_accepted hp huses (hsettled k) htopic
      exact (hpair'.unique hpair).1
    · rintro rfl
      exact ⟨hpair.accepted.uses, hpair.accepted.topic_eq⟩
    · rintro ⟨huses, htopic⟩
      obtain ⟨-, a', hpair'⟩ := h.exists_pair_of_rejected hp huses (hsettled k) htopic
      exact (hpair'.unique hpair).2
    · rintro rfl
      exact ⟨hpair.rejected.uses, hpair.rejected.topic_eq⟩
  · intro k huses
    obtain ⟨p, a, r, -, hwaits, hpair, hk⟩ := h.pairs k huses (hsettled k)
    refine ⟨p, hwaits, ?_⟩
    rcases hk with rfl | rfl
    · exact .inl hpair.accepted.topic_eq
    · exact .inr hpair.rejected.topic_eq

end World

/-- In every such run from empty tables the books are balanced wherever no action is being
made and no record is being completed. -/
theorem isBalanced_of_moves {fuel : Nat} {w s : World} {p : M Unit} (hw : w.IsEmpty)
    (hmoves : Moves Succeeds World.IsSimple (app fuel, w) (p, s)) (hrest : s.IsAtRest) :
    s.IsBalanced := by
  have hwp := preserves_app fuel w ⟨hw.isTallied, hw.stack_eq⟩
  have htallied := invariant_moves (D := tallying) (I := fun s => s.IsAtRest → s.IsTallied)
    (fun _ _ _ h => h) hwp (fun _ => hw.isTallied) hmoves
  exact (htallied hrest).isBalanced hrest

/-! ## Two actions that overlap -/

/-- Two updates of a thing, the first of which is answered. -/
def twoUpdates : Script where
  traffic := [.done .success, .done .success,
    sampleMessage "$aws/things/t/shadow/update/accepted" "\x7b\"clientToken\":\"x\"\x7d"]
  calls := [
    some (.update (some (sampleText "t"))
      (some (sampleText "\x7b\"clientToken\":\"x\"\x7d")) (some 0) 0 4 false),
    some (.update (some (sampleText "t"))
      (some (sampleText "\x7b\"clientToken\":\"y\"\x7d")) (some 1) 0 4 false),
    some (.yield 0)]
  expired := []

namespace World

instance (w : World) : Decidable w.IsAtRest := inferInstanceAs (Decidable (∀ f ∈ w.stack, _))

def canServe (w : World) : Request → Bool
  | .subscribe .. => w.getFreeMessageHandlerIndex.isSome
  | .unsubscribe topic => (List.finRange numSubscribeHandlers).any fun j =>
      (w.messageHandlers j).any fun s =>
        s.topicName ≠ .deleteAcceptedTopic && w.topicText s.topicName = topic
  | _ => true

theorem canServe_of_eq_true {w : World} {r : Request} (h : w.canServe r = true) : w.CanServe r := by
  cases r with
  | subscribe => exact Option.isSome_iff_ne_none.mp h
  | unsubscribe topic =>
      obtain ⟨j, -, hj⟩ := List.any_eq_true.mp h
      obtain ⟨s, hs, hserves⟩ := (Option.any_eq_true _ _).mp hj
      obtain ⟨hname, htopic⟩ := Bool.and_eq_true_iff.mp hserves
      exact ⟨j, s, hs, of_decide_eq_true hname, of_decide_eq_true htopic⟩
  | _ => trivial

def isSimple (s t : World) : Bool :=
  match s.logged t with
  | some (.enter (.call (.connect _))) => false
  | some (.enter (.call _)) => s.stack.isEmpty
  | some (.enter (.action args _)) =>
      !args.isSticky && args.thingName.all fun thing => thing.chars.length < maxSizeOfThingName
  | _ => true

theorem isSimple_of_eq_true (s t : World) (h : s.isSimple t = true) : s.IsSimple t := by
  unfold isSimple at h
  constructor
  · intro c htrace
    rw [logged_of_trace_eq htrace] at h
    cases c with
    | connect => cases h
    | _ => exact ⟨List.isEmpty_iff.mp h, fun _ => by simp⟩
  · intro args token htrace
    rw [logged_of_trace_eq htrace] at h
    obtain ⟨hsticky, hshort⟩ := Bool.and_eq_true_iff.mp h
    refine ⟨Bool.not_eq_true' _ ▸ hsticky, fun thing hthing => ?_⟩
    rw [hthing] at hshort
    exact of_decide_eq_true hshort

theorem isEmpty_blankWorld : blankWorld.IsEmpty := ⟨fun _ => rfl, fun _ => rfl, rfl⟩

end World

def succeeds : (q : Query) → World → Answer q → Bool
  | .claim r, s, rc => decide (rc = IotError.success) && s.canServe r
  | .send r, _, rc => !r.isMessage || decide (rc = IotError.success)
  | .wait r, _, .done rc => !r.isMessage || decide (rc = .success)
  | .wait (.unsubscribe _), _, .packet _ => false
  | .release _, _, rc => decide (rc = IotError.success)
  | _, _, _ => true

theorem succeeds_of_eq_true (q : Query) (s : World) (a : Answer q) (h : succeeds q s a = true) :
    Succeeds q s a := by
  cases q with
  | claim r =>
      obtain ⟨hrc, hserve⟩ := Bool.and_eq_true_iff.mp h
      exact ⟨of_decide_eq_true hrc, World.canServe_of_eq_true hserve⟩
  | send r =>
      intro hr
      have h' : (!r.isMessage || decide (a = IotError.success)) = true := h
      rw [hr] at h'
      exact of_decide_eq_true h'
  | wait r =>
      cases a with
      | done rc =>
          intro hr
          have h' : (!r.isMessage || decide (rc = IotError.success)) = true := by
            cases r <;> exact h
          rw [hr] at h'
          exact of_decide_eq_true h'
      | packet bytes =>
          rintro topic rfl
          cases h
  | release r => exact of_decide_eq_true (p := a = IotError.success) h
  | _ => trivial

theorem movesTo_twoUpdates : twoUpdates.movesTo succeeds World.isSimple 6 92 = true := by
  decide +kernel

/-- When the first update has been answered, the second still holds both entries. -/
theorem isBalanced_twoUpdates :
    (twoUpdates.reached 6 92).2.waiting ⟨(sampleText "t").chars, .update⟩ = 1 ∧
      (twoUpdates.reached 6 92).2.IsBalanced :=
  ⟨by decide +kernel, isBalanced_of_moves World.isEmpty_blankWorld
    (Script.moves_reached succeeds_of_eq_true World.isSimple_of_eq_true movesTo_twoUpdates)
    (by decide +kernel)⟩

end MqttClient.Shadow
