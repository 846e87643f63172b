import MqttClient.Shadow.Disciplines
import Mathlib.Algebra.Order.BigOperators.Group.Finset
import Mathlib.Data.Fintype.Card

/-! # Pairs of subscriptions

For the answers to an action two topics are subscribed, one for its acceptance and
one for its rejection. Each has an entry in the list of subscriptions, and both entries
count the records that wait for an answer.
-/

namespace MqttClient.Shadow

open Effect Program

/-! ## First indices -/

section FirstIndex

variable {n : Nat} {p : Fin n → Bool} {i : Fin n}

/-- The first index has the property, and none before it does. -/
theorem firstIndex_eq_some_iff : firstIndex p = some i ↔ p i = true ∧ ∀ j < i, p j = false := by
  rw [firstIndex, ← Fin.find?_eq_find?_finRange, Fin.find?_eq_some_iff]

/-- There is no first index if no index has the property. -/
theorem firstIndex_eq_none_iff : firstIndex p = none ↔ ∀ i, p i = false := by
  rw [firstIndex, ← Fin.find?_eq_find?_finRange, Fin.find?_eq_none_iff]

/-- What holds somewhere holds somewhere first. -/
theorem exists_firstIndex (h : p i = true) : ∃ j, firstIndex p = some j := by
  cases hfirst : firstIndex p with
  | some j => exact ⟨j, rfl⟩
  | none =>
      rw [firstIndex_eq_none_iff.mp hfirst i] at h
      cases h

end FirstIndex

/-! ## Records that wait -/

/-- Operations on the tables that take more than one step. -/
def Frame.isTable : Frame → Bool
  | .action .. | .subscribing .. | .releasing _ | .completing .. => true
  | _ => false

/-- What releasing a topic makes of its entry, if the client can unsubscribe it. -/
def SubscriptionRecord.released (r : SubscriptionRecord) : SubscriptionRecord :=
  if !r.isSticky && r.count = 1 then { r with isFree := true }
  else if r.count > 1 then { r with count := r.count - 1 }
  else r

/-- An entry that is released keeps its topic. -/
theorem SubscriptionRecord.topic_released (r : SubscriptionRecord) :
    r.released.topic = r.topic := by
  unfold released
  split
  next => rfl
  next => split <;> rfl

/-- The last user frees the entry. -/
theorem SubscriptionRecord.released_of_last {r : SubscriptionRecord} (hsticky : r.isSticky = false)
    (hcount : r.count.toNat = 1) : r.released = { r with isFree := true } := by
  have hone : r.count = 1 := UInt8.toNat_inj.mp hcount
  rw [released, hsticky, hone]
  rfl

/-- Another one only counts down. -/
theorem SubscriptionRecord.released_of_more {r : SubscriptionRecord} (hcount : 1 < r.count.toNat) :
    r.released = { r with count := r.count - 1 } := by
  have hne : r.count ≠ 1 := by
    intro hone
    rw [hone] at hcount
    exact Nat.lt_irrefl 1 hcount
  have hmore : r.count > 1 := UInt8.lt_iff_toNat_lt.mpr hcount
  rw [released, if_neg (by simp [hne]), if_pos hmore]

namespace World

def Uses (w : World) (k : SubscriptionIndex) : Prop := (w.subscriptionList k).isFree = false

instance (w : World) (k : SubscriptionIndex) : Decidable (w.Uses k) :=
  inferInstanceAs (Decidable (_ = _))

/-- The entry is being filled. -/
def IsFilling (w : World) (k : SubscriptionIndex) : Prop :=
  ∃ p a r, Frame.subscribing p a r ∈ w.stack ∧ (k = a ∨ k = r)

/-- No operation on the tables is in progress. -/
def IsAtRest (w : World) : Prop := ∀ f ∈ w.stack, f.isTable = false

/-- The records that wait for an answer to the action. -/
def waitingFor (w : World) (p : Target) : Finset AckIndex :=
  Finset.univ.filter fun i => (w.ackWaitList i).isFree = false ∧ (w.ackWaitList i).target = p

def waiting (w : World) (p : Target) : Nat := (w.waitingFor p).card

theorem onSubscription_self (w : World) (k : SubscriptionIndex)
    (f : SubscriptionRecord → SubscriptionRecord) :
    (w.onSubscription k f).subscriptionList k = f (w.subscriptionList k) :=
  Function.update_self k _ w.subscriptionList

theorem onSubscription_of_ne (w : World) {k l : SubscriptionIndex} (h : l ≠ k)
    (f : SubscriptionRecord → SubscriptionRecord) :
    (w.onSubscription k f).subscriptionList l = w.subscriptionList l :=
  Function.update_of_ne h _ w.subscriptionList

variable {w s t : World} {p : Target} {i : AckIndex}

theorem mem_waitingFor :
    i ∈ w.waitingFor p ↔
      (w.ackWaitList i).isFree = false ∧ (w.ackWaitList i).target = p := by
  simp [waitingFor]

/-- How many wait depends on the records alone. -/
theorem waiting_congr (h : t.ackWaitList = s.ackWaitList) (p : Target) :
    t.waiting p = s.waiting p := by
  rw [waiting, waitingFor, h, waiting, waitingFor]

/-- A record that is used waits for its own target. -/
theorem waiting_pos (h : (w.ackWaitList i).isFree = false) :
    0 < w.waiting (w.ackWaitList i).target :=
  Finset.card_pos.mpr ⟨i, mem_waitingFor.mpr ⟨h, rfl⟩⟩

/-- One record more waits. -/
theorem waiting_of_agree (hfree : (s.ackWaitList i).isFree = true)
    (hwaits : (t.ackWaitList i).isFree = false)
    (hagree : ∀ j, j ≠ i → t.ackWaitList j = s.ackWaitList j) (p : Target) :
    t.waiting p = s.waiting p + if (t.ackWaitList i).target = p then 1 else 0 := by
  have hnot : i ∉ s.waitingFor p := by
    rw [mem_waitingFor, hfree]
    exact fun h => Bool.noConfusion h.1
  split
  next htarget =>
      have hinsert : t.waitingFor p = insert i (s.waitingFor p) := by
        ext j
        rw [Finset.mem_insert, mem_waitingFor, mem_waitingFor]
        by_cases hj : j = i
        · subst hj
          exact iff_of_true ⟨hwaits, htarget⟩ (.inl rfl)
        · rw [hagree j hj, or_iff_right hj]
      rw [waiting, hinsert, Finset.card_insert_of_notMem hnot, waiting]
  next htarget =>
      have hsame : t.waitingFor p = s.waitingFor p := by
        ext j
        rw [mem_waitingFor, mem_waitingFor]
        by_cases hj : j = i
        · subst hj
          rw [hfree]
          exact iff_of_false (fun h => htarget h.2) fun h => Bool.noConfusion h.1
        · rw [hagree j hj]
      rw [waiting, hsame, waiting, Nat.add_zero]

/-- No more wait than there are records. -/
theorem waiting_le (w : World) (p : Target) : w.waiting p ≤ maxAcks := by
  have h := Finset.card_le_univ (w.waitingFor p)
  rw [Fintype.card_fin] at h
  exact h

/-! ## Entries of the list -/

/-- An entry that is settled: it is in use, no entry in front of it has the same
topic, and it is kept for so many records. -/
structure IsEntry (w : World) (k : SubscriptionIndex) (topic : List UInt8) (n : Nat) : Prop where
  uses : w.Uses k
  settled : ¬ w.IsFilling k
  topic_eq : (w.subscriptionList k).topic = topic
  count_eq : (w.subscriptionList k).count.toNat = n
  notSticky : (w.subscriptionList k).isSticky = false
  first : ∀ l < k, (w.subscriptionList l).topic ≠ topic

/-- The pair of entries of an action. -/
structure IsPair (w : World) (p : Target) (a r : SubscriptionIndex) : Prop where
  accepted : w.IsEntry a p.accepted (w.waiting p)
  rejected : w.IsEntry r p.rejected (w.waiting p)

/-- Entries are in use just for the actions that are waited for. -/
structure IsTallied (w : World) : Prop where
  pairs : ∀ k, w.Uses k → ¬ w.IsFilling k →
    ∃ p a r, p.IsShort ∧ 0 < w.waiting p ∧ w.IsPair p a r ∧ (k = a ∨ k = r)
  needed : ∀ p, 0 < w.waiting p → p.IsShort ∧ ∃ a r, w.IsPair p a r

variable {q : Target} {a r a' r' k l : SubscriptionIndex} {topic : List UInt8} {n : Nat}

/-- A topic has one settled entry. -/
theorem IsEntry.unique {m : Nat} (hk : w.IsEntry k topic n) (hl : w.IsEntry l topic m) : k = l := by
  rcases lt_trichotomy k l with hlt | heq | hlt
  · exact absurd hk.topic_eq (hl.first k hlt)
  · exact heq
  · exact absurd hl.topic_eq (hk.first l hlt)

/-- An action has one pair. -/
theorem IsPair.unique (h : w.IsPair p a r) (h' : w.IsPair p a' r') : a = a' ∧ r = r' :=
  ⟨h.accepted.unique h'.accepted, h.rejected.unique h'.rejected⟩

/-- The two entries of a pair are different. -/
theorem IsPair.ne (h : w.IsPair p a r) (hp : p.IsShort) : a ≠ r := by
  rintro rfl
  exact Target.accepted_ne_rejected hp hp (h.accepted.topic_eq.symm.trans h.rejected.topic_eq)

namespace IsTallied

/-- A settled entry for an accepted topic is that of the pair. -/
theorem exists_pair_of_accepted (h : w.IsTallied) (hp : p.IsShort) (huses : w.Uses k)
    (hsettled : ¬ w.IsFilling k) (htopic : (w.subscriptionList k).topic = p.accepted) :
    0 < w.waiting p ∧ ∃ r, w.IsPair p k r := by
  obtain ⟨q, a, r, hq, hwaits, hpair, rfl | rfl⟩ := h.pairs k huses hsettled
  · have heq : q = p :=
      Target.accepted_inj hq hp (hpair.accepted.topic_eq.symm.trans htopic)
    exact heq ▸ ⟨hwaits, r, hpair⟩
  · exact absurd (htopic.symm.trans hpair.rejected.topic_eq) (Target.accepted_ne_rejected hp hq)

/-- An entry for a rejected topic is the second of the pair of somebody who waits. -/
theorem exists_pair_of_rejected (h : w.IsTallied) (hp : p.IsShort) (huses : w.Uses k)
    (hsettled : ¬ w.IsFilling k) (htopic : (w.subscriptionList k).topic = p.rejected) :
    0 < w.waiting p ∧ ∃ a, w.IsPair p a k := by
  obtain ⟨q, a, r, hq, hwaits, hpair, rfl | rfl⟩ := h.pairs k huses hsettled
  · exact absurd (hpair.accepted.topic_eq.symm.trans htopic) (Target.accepted_ne_rejected hq hp)
  · have heq : q = p :=
      Target.rejected_inj hq hp (hpair.rejected.topic_eq.symm.trans htopic)
    exact heq ▸ ⟨hwaits, a, hpair⟩

end IsTallied

/-! ## Room for one pair more -/

/-- The entries in use. -/
def used (w : World) : Finset SubscriptionIndex := Finset.univ.filter w.Uses

theorem mem_used : k ∈ w.used ↔ w.Uses k := by simp [used]

/-- As long as fewer entries are used than there are, one is free. -/
theorem freeSubscription_of_card (h : w.used.card < maxTopics) :
    ∃ k, w.freeSubscription = some k ∧ ¬ w.Uses k := by
  have hne : w.used ≠ Finset.univ := by
    intro heq
    rw [heq, Finset.card_univ, Fintype.card_fin] at h
    exact Nat.lt_irrefl _ h
  obtain ⟨k, hk⟩ : ∃ k, k ∉ w.used := by
    by_contra hall
    exact hne (Finset.eq_univ_iff_forall.mpr fun k => not_not.mp fun hk => hall ⟨k, hk⟩)
  rw [mem_used] at hk
  have hfree : (w.subscriptionList k).isFree = true := Bool.eq_true_of_not_eq_false hk
  obtain ⟨l, hl⟩ := exists_firstIndex (p := fun k => (w.subscriptionList k).isFree) hfree
  refine ⟨l, hl, ?_⟩
  rw [Uses, (firstIndex_eq_some_iff.mp hl).1]
  exact Bool.true_eq_false.mp

/-- Where all entries are settled, there are two for every action at most. -/
theorem IsTallied.card_used_le (h : w.IsTallied) (hsettled : ∀ k, ¬ w.IsFilling k)
    (hfree : (w.ackWaitList i).isFree = true) : w.used.card + 2 ≤ maxTopics := by
  let waits : Finset AckIndex := Finset.univ.filter fun j => (w.ackWaitList j).isFree = false
  have hwaits : waits.card < maxAcks := by
    have hlt : waits.card < (Finset.univ : Finset AckIndex).card := by
      apply Finset.card_lt_card
      apply Finset.ssubset_univ_iff.mpr
      intro heq
      have hmem : i ∈ waits := heq ▸ Finset.mem_univ i
      rw [Finset.mem_filter, hfree] at hmem
      exact Bool.noConfusion hmem.2
    rw [Finset.card_univ, Fintype.card_fin] at hlt
    exact hlt
  -- each record that waits needs two entries, and each entry in use has such a record
  let entries (j : AckIndex) : Finset SubscriptionIndex := w.used.filter fun k =>
    (w.subscriptionList k).topic = (w.ackWaitList j).target.accepted ∨
      (w.subscriptionList k).topic = (w.ackWaitList j).target.rejected
  have hentries (j : AckIndex) (hj : j ∈ waits) : (entries j).card ≤ 2 := by
    have hused := (Finset.mem_filter.mp hj).2
    obtain ⟨hp, a, r, hpair⟩ := h.needed _ (waiting_pos hused)
    apply (Finset.card_le_card (t := {a, r}) _).trans Finset.card_le_two
    intro k hk
    obtain ⟨huses, htopic⟩ := Finset.mem_filter.mp hk
    rw [mem_used] at huses
    rw [Finset.mem_insert, Finset.mem_singleton]
    rcases htopic with htopic | htopic
    · obtain ⟨-, r', hpair'⟩ := h.exists_pair_of_accepted hp huses (hsettled k) htopic
      exact .inl (hpair'.unique hpair).1
    · obtain ⟨-, a', hpair'⟩ := h.exists_pair_of_rejected hp huses (hsettled k) htopic
      exact .inr (hpair'.unique hpair).2
  have hcover : w.used ⊆ waits.biUnion entries := by
    intro k hk
    have huses := mem_used.mp hk
    obtain ⟨p, a, r, -, hpos, hpair, hmem⟩ := h.pairs k huses (hsettled k)
    obtain ⟨j, hj⟩ := Finset.card_pos.mp hpos
    obtain ⟨hused, rfl⟩ := mem_waitingFor.mp hj
    refine Finset.mem_biUnion.mpr ⟨j, Finset.mem_filter.mpr ⟨Finset.mem_univ j, hused⟩,
      Finset.mem_filter.mpr ⟨hk, ?_⟩⟩
    rcases hmem with rfl | rfl
    · exact .inl hpair.accepted.topic_eq
    · exact .inr hpair.rejected.topic_eq
  have hle := (Finset.card_le_card hcover).trans (Finset.card_biUnion_le_card_mul _ _ 2 hentries)
  simp only [maxTopics, maxAcks] at hwaits ⊢
  omega

/-- The world in which the entry is taken. -/
theorem subscriptionList_withSubscriptionTaken (h : w.freeSubscription = some k) :
    w.withSubscriptionTaken.subscriptionList =
      Function.update w.subscriptionList k { w.subscriptionList k with isFree := false } := by
  rw [withSubscriptionTaken, h]
  rfl

/-- While a record is free, there is room for another pair of entries. -/
theorem IsTallied.room (h : w.IsTallied) (hsettled : ∀ k, ¬ w.IsFilling k)
    (hfree : (w.ackWaitList i).isFree = true) :
    ∃ a r, w.freeSubscription = some a ∧ w.withSubscriptionTaken.freeSubscription = some r := by
  have hle := h.card_used_le hsettled hfree
  obtain ⟨a, ha, hunused⟩ := freeSubscription_of_card (Nat.lt_of_succ_lt hle)
  have hsubset : w.withSubscriptionTaken.used ⊆ insert a w.used := by
    intro k hk
    rw [mem_used, Uses, subscriptionList_withSubscriptionTaken ha] at hk
    rw [Finset.mem_insert, mem_used]
    by_cases hka : k = a
    · exact .inl hka
    · rw [Function.update_of_ne hka] at hk
      exact .inr hk
  have hcard := (Finset.card_le_card hsubset).trans (Finset.card_insert_le a w.used)
  obtain ⟨r, hr, -⟩ := freeSubscription_of_card (w := w.withSubscriptionTaken) (by omega)
  exact ⟨a, r, ha, hr⟩

/-! ## Steps for one action -/

/-- Only what concerns the action `p` and the entries `a` and `r` has changed. -/
structure Touches (p : Target) (a r : SubscriptionIndex) (s t : World) : Prop where
  entries : ∀ k, k ≠ a → k ≠ r → t.subscriptionList k = s.subscriptionList k
  topics : ∀ k, (t.subscriptionList k).topic = (s.subscriptionList k).topic ∨
    (t.subscriptionList k).topic = p.accepted ∨ (t.subscriptionList k).topic = p.rejected
  filling : ∀ k, k ≠ a → k ≠ r → (t.IsFilling k ↔ s.IsFilling k)
  waiting : ∀ q, q ≠ p → t.waiting q = s.waiting q

namespace Touches

/-- Entries off the pair are used as before. -/
theorem uses_iff (h : Touches p a r s t) (ha : k ≠ a) (hr : k ≠ r) : t.Uses k ↔ s.Uses k := by
  rw [Uses, h.entries k ha hr, Uses]

/-- What another target has is not touched. -/
theorem isEntry (h : Touches p a r s t) (ha : k ≠ a) (hr : k ≠ r)
    (haccepted : p.accepted ≠ topic) (hrejected : p.rejected ≠ topic) (hk : s.IsEntry k topic n) :
    t.IsEntry k topic n where
  uses := (h.uses_iff ha hr).mpr hk.uses
  settled := (h.filling k ha hr).not.mpr hk.settled
  topic_eq := by rw [h.entries k ha hr, hk.topic_eq]
  count_eq := by rw [h.entries k ha hr, hk.count_eq]
  notSticky := by rw [h.entries k ha hr, hk.notSticky]
  first := by
    intro l hlt
    rcases h.topics l with htopic | htopic | htopic
    · rw [htopic]
      exact hk.first l hlt
    · rw [htopic]
      exact haccepted
    · rw [htopic]
      exact hrejected

/-- The pairs of other actions are as before. -/
theorem isPair (h : Touches p a r s t) (hp : p.IsShort) (hq : q.IsShort) (hne : q ≠ p)
    (ha' : a' ≠ a ∧ a' ≠ r) (hr' : r' ≠ a ∧ r' ≠ r) (hs : s.IsPair q a' r') : t.IsPair q a' r' where
  accepted := by
    rw [h.waiting q hne]
    apply h.isEntry ha'.1 ha'.2 _ _ hs.accepted
    · exact fun heq => hne (Target.accepted_inj hp hq heq).symm
    · exact fun heq => Target.accepted_ne_rejected hq hp heq.symm
  rejected := by
    rw [h.waiting q hne]
    apply h.isEntry hr'.1 hr'.2 _ _ hs.rejected
    · exact Target.accepted_ne_rejected hp hq
    · exact fun heq => hne (Target.rejected_inj hp hq heq).symm

end Touches

/-- What a step for one action has to show. -/
structure Settles (p : Target) (a r : SubscriptionIndex) (s t : World) : Prop
    extends Touches p a r s t where
  isShort : p.IsShort
  /-- The entries belong to no other action. -/
  others : ∀ k, k = a ∨ k = r → s.Uses k → ¬ s.IsFilling k →
    (s.subscriptionList k).topic = p.accepted ∨ (s.subscriptionList k).topic = p.rejected
  only : ∀ a' r', s.IsPair p a' r' → a' = a ∧ r' = r
  own : (0 < t.waiting p ∧ t.IsPair p a r) ∨
    (t.waiting p = 0 ∧ ∀ k, k = a ∨ k = r → t.Uses k → t.IsFilling k)

/-- Pairs of other actions have other entries. -/
theorem Settles.disjoint (h : Settles p a r s t) (hq : q.IsShort) (hne : q ≠ p)
    (hs : s.IsPair q a' r') : (a' ≠ a ∧ a' ≠ r) ∧ (r' ≠ a ∧ r' ≠ r) := by
  have haccepted : ¬ (a' = a ∨ a' = r) := by
    intro hmem
    rcases h.others a' hmem hs.accepted.uses hs.accepted.settled with htopic | htopic
    · exact hne (Target.accepted_inj hq h.isShort (hs.accepted.topic_eq.symm.trans htopic))
    · exact Target.accepted_ne_rejected hq h.isShort (hs.accepted.topic_eq.symm.trans htopic)
  have hrejected : ¬ (r' = a ∨ r' = r) := by
    intro hmem
    rcases h.others r' hmem hs.rejected.uses hs.rejected.settled with htopic | htopic
    · exact Target.accepted_ne_rejected h.isShort hq (htopic.symm.trans hs.rejected.topic_eq)
    · exact hne (Target.rejected_inj hq h.isShort (hs.rejected.topic_eq.symm.trans htopic))
  exact ⟨not_or.mp haccepted, not_or.mp hrejected⟩

/-- Such a step keeps the tally. -/
theorem IsTallied.settles (hs : s.IsTallied) (h : Settles p a r s t) : t.IsTallied where
  pairs := by
    intro k huses hsettled
    by_cases hk : k = a ∨ k = r
    · rcases h.own with ⟨hwaits, hpair⟩ | ⟨-, hfilling⟩
      · exact ⟨p, a, r, h.isShort, hwaits, hpair, hk⟩
      · exact absurd (hfilling k hk huses) hsettled
    · obtain ⟨ha, hr⟩ := not_or.mp hk
      obtain ⟨q, a', r', hq, hwaits, hpair, hmem⟩ := hs.pairs k ((h.uses_iff ha hr).mp huses)
        ((h.filling k ha hr).not.mp hsettled)
      have hne : q ≠ p := by
        rintro rfl
        obtain ⟨rfl, rfl⟩ := h.only a' r' hpair
        exact hk hmem
      obtain ⟨ha', hr'⟩ := h.disjoint hq hne hpair
      exact ⟨q, a', r', hq, (h.waiting q hne).symm ▸ hwaits,
        h.isPair h.isShort hq hne ha' hr' hpair, hmem⟩
  needed := by
    intro q hwaits
    by_cases heq : q = p
    · subst heq
      rcases h.own with ⟨-, hpair⟩ | ⟨hzero, -⟩
      · exact ⟨h.isShort, a, r, hpair⟩
      · exact absurd hzero hwaits.ne'
    · rw [h.waiting q heq] at hwaits
      obtain ⟨hq, a', r', hpair⟩ := hs.needed q hwaits
      obtain ⟨ha', hr'⟩ := h.disjoint hq heq hpair
      exact ⟨hq, a', r', h.isPair h.isShort hq heq ha' hr' hpair⟩

/-- The same tables, and the same entries being filled. -/
theorem IsTallied.congr (hs : s.IsTallied) (hacks : t.ackWaitList = s.ackWaitList)
    (hentries : t.subscriptionList = s.subscriptionList)
    (hfilling : ∀ k, t.IsFilling k ↔ s.IsFilling k) : t.IsTallied := by
  have hwaiting := waiting_congr hacks
  have huses (k : SubscriptionIndex) : t.Uses k ↔ s.Uses k := by rw [Uses, hentries, Uses]
  have hentry {k : SubscriptionIndex} {topic : List UInt8} {n : Nat} (h : s.IsEntry k topic n) :
      t.IsEntry k topic n :=
    ⟨(huses k).mpr h.uses, (hfilling k).not.mpr h.settled, by rw [hentries, h.topic_eq],
      by rw [hentries, h.count_eq], by rw [hentries, h.notSticky], by rw [hentries]; exact h.first⟩
  have hpair {p : Target} {a r : SubscriptionIndex} (h : s.IsPair p a r) : t.IsPair p a r :=
    ⟨by rw [hwaiting]; exact hentry h.accepted, by rw [hwaiting]; exact hentry h.rejected⟩
  constructor
  · intro k hk hsettled
    obtain ⟨p, a, r, hp, hwaits, h, hmem⟩ :=
      hs.pairs k ((huses k).mp hk) ((hfilling k).not.mp hsettled)
    exact ⟨p, a, r, hp, (hwaiting p).symm ▸ hwaits, hpair h, hmem⟩
  · intro p hwaits
    rw [hwaiting] at hwaits
    obtain ⟨hp, a, r, h⟩ := hs.needed p hwaits
    exact ⟨hp, a, r, hpair h⟩

/-! ## A record that is completed -/

/-- The world in which a topic has been released. -/
def released (w : World) (topic : List UInt8) : World :=
  match w.findIndexOfSubscriptionList topic with
  | none => w
  | some k => w.onSubscription k SubscriptionRecord.released

/-- Releasing a topic leaves all topics as they are. -/
theorem topic_released (w : World) (topic : List UInt8) (k : SubscriptionIndex) :
    ((w.released topic).subscriptionList k).topic = (w.subscriptionList k).topic := by
  unfold released
  split
  next => rfl
  next l _ =>
      by_cases hk : k = l
      · rw [hk, onSubscription_self, SubscriptionRecord.topic_released]
      · rw [onSubscription_of_ne w hk]

/-- The first entry in use for the topic is released. -/
theorem subscriptionList_released (huses : w.Uses k) (htopic : (w.subscriptionList k).topic = topic)
    (hfirst : ∀ l < k, (w.subscriptionList l).topic ≠ topic) :
    (w.released topic).subscriptionList =
      Function.update w.subscriptionList k (w.subscriptionList k).released := by
  have hfind : w.findIndexOfSubscriptionList topic = some k := by
    apply firstIndex_eq_some_iff.mpr
    constructor
    · rw [show (w.subscriptionList k).isFree = false from huses, htopic]
      simp
    · intro l hl
      rw [decide_eq_false (hfirst l hl), Bool.and_false]
  rw [released, hfind]
  rfl

/-- What may happen while entries are being filled: records become free, and nothing
happens to these entries. -/
structure Dwindles (s t : World) : Prop where
  stack_eq : t.stack = s.stack
  filled : ∀ k, s.IsFilling k → t.subscriptionList k = s.subscriptionList k
  topics : ∀ k, (t.subscriptionList k).topic = (s.subscriptionList k).topic
  records : ∀ j, (t.ackWaitList j).isFree = false → t.ackWaitList j = s.ackWaitList j

/-- Which entries are being filled depends on the calls in progress. -/
theorem isFilling_congr (h : t.stack = s.stack) : t.IsFilling k ↔ s.IsFilling k := by
  rw [IsFilling, h, IsFilling]

theorem Dwindles.refl (s : World) : s.Dwindles s :=
  ⟨rfl, fun _ _ => rfl, fun _ => rfl, fun _ _ => rfl⟩

theorem Dwindles.trans {u : World} (h : s.Dwindles t) (h' : t.Dwindles u) : s.Dwindles u where
  stack_eq := h'.stack_eq.trans h.stack_eq
  filled := fun k hk =>
    (h'.filled k ((isFilling_congr h.stack_eq).mpr hk)).trans (h.filled k hk)
  topics := fun k => (h'.topics k).trans (h.topics k)
  records := by
    intro j hj
    have heq := h'.records j hj
    rw [heq] at hj ⊢
    exact h.records j hj

/-- A free record stays free. -/
theorem Dwindles.isFree (h : s.Dwindles t) (hfree : (s.ackWaitList i).isFree = true) :
    (t.ackWaitList i).isFree = true := by
  by_contra hused
  have hused' := Bool.eq_false_of_not_eq_true hused
  rw [h.records i hused', hfree] at hused'
  cases hused'

/-- No more wait than before. -/
theorem Dwindles.waiting_le (h : s.Dwindles t) (p : Target) : t.waiting p ≤ s.waiting p := by
  apply Finset.card_le_card
  intro j hj
  obtain ⟨hused, htarget⟩ := mem_waitingFor.mp hj
  have heq := h.records j hused
  rw [heq] at hused htarget
  exact mem_waitingFor.mpr ⟨hused, htarget⟩

/-- The record is free, and its two topics have been released. -/
structure Completes (s t : World) (i : AckIndex) : Prop where
  stack_eq : t.stack = s.stack
  acks : t.ackWaitList = (s.freeAck i).ackWaitList
  entries : t.subscriptionList = ((s.released (s.ackWaitList i).target.accepted).released
    (s.ackWaitList i).target.rejected).subscriptionList

namespace Completes

/-- One less waits for the target of the record, and as many as before for every other. -/
theorem waiting_eq (h : s.Completes t i) (hused : (s.ackWaitList i).isFree = false) (q : Target) :
    s.waiting q = t.waiting q + if (s.ackWaitList i).target = q then 1 else 0 := by
  apply waiting_of_agree _ hused
  · intro j hj
    rw [h.acks]
    exact (Function.update_of_ne hj _ _).symm
  · rw [h.acks]
    simp [freeAck, setAck]

/-- Completing a record leaves the topics alone. -/
theorem topics (h : s.Completes t i) (k : SubscriptionIndex) :
    (t.subscriptionList k).topic = (s.subscriptionList k).topic := by
  rw [h.entries, topic_released, topic_released]

/-- The two entries of the record are released. -/
theorem entries_eq (h : s.Completes t i) (hp : (s.ackWaitList i).target.IsShort)
    (hpair : s.IsPair (s.ackWaitList i).target a r) :
    t.subscriptionList = Function.update (Function.update s.subscriptionList a
      (s.subscriptionList a).released) r (s.subscriptionList r).released := by
  have hne : r ≠ a := (hpair.ne hp).symm
  have hfirst := subscriptionList_released hpair.accepted.uses hpair.accepted.topic_eq
    hpair.accepted.first
  have hsame : (s.released (s.ackWaitList i).target.accepted).subscriptionList r =
      s.subscriptionList r := by
    rw [hfirst, Function.update_of_ne hne]
  rw [h.entries, subscriptionList_released (k := r), hsame, hfirst]
  · rw [Uses, hsame]
    exact hpair.rejected.uses
  · rw [hsame]
    exact hpair.rejected.topic_eq
  · intro l hl
    rw [topic_released]
    exact hpair.rejected.first l hl

/-- An entry of which the record was the last is free, any other one is kept for the others. -/
theorem isEntry_or (h : s.Completes t i) {n : Nat} (hk : s.IsEntry k topic (n + 1))
    (hentry : t.subscriptionList k = (s.subscriptionList k).released) :
    if n = 0 then ¬ t.Uses k else t.IsEntry k topic n := by
  have hsettled : ¬ t.IsFilling k := (isFilling_congr h.stack_eq).not.mpr hk.settled
  split
  next hzero =>
      subst hzero
      rw [Uses, hentry, SubscriptionRecord.released_of_last hk.notSticky hk.count_eq]
      exact Bool.true_eq_false.mp
  next hpos =>
      have hmore : 1 < (s.subscriptionList k).count.toNat := by
        rw [hk.count_eq]
        omega
      rw [SubscriptionRecord.released_of_more hmore] at hentry
      have hone : (1 : UInt8) ≤ (s.subscriptionList k).count :=
        UInt8.le_iff_toNat_le.mpr hmore.le
      refine ⟨?_, hsettled, ?_, ?_, ?_, ?_⟩
      · rw [Uses, hentry]
        exact hk.uses
      · rw [hentry]
        exact hk.topic_eq
      · rw [hentry, UInt8.toNat_sub_of_le _ _ hone, hk.count_eq]
        exact Nat.add_sub_cancel n 1
      · rw [hentry]
        exact hk.notSticky
      · intro l hl
        rw [h.topics]
        exact hk.first l hl

/-- The counts still tally when a record has been completed. -/
theorem isTallied (h : s.Completes t i) (hused : (s.ackWaitList i).isFree = false)
    (hs : s.IsTallied) : t.IsTallied := by
  obtain ⟨hp, a, r, hpair⟩ := hs.needed _ (waiting_pos hused)
  have hentries := h.entries_eq hp hpair
  have hne := hpair.ne hp
  have hwaiting := h.waiting_eq hused
  have hfilling (k : SubscriptionIndex) := isFilling_congr (k := k) h.stack_eq
  have haccepted := hpair.accepted
  have hrejected := hpair.rejected
  rw [hwaiting, if_pos rfl] at haccepted hrejected
  have ha := h.isEntry_or haccepted
    (by rw [hentries, Function.update_of_ne hne, Function.update_self])
  have hr := h.isEntry_or hrejected (by rw [hentries, Function.update_self])
  apply hs.settles (p := (s.ackWaitList i).target) (a := a) (r := r)
  refine ⟨⟨?_, fun k => .inl (h.topics k), fun k _ _ => hfilling k, ?_⟩, hp, ?_, ?_, ?_⟩
  · intro k hka hkr
    rw [hentries, Function.update_of_ne hkr, Function.update_of_ne hka]
  · intro q hq
    rw [hwaiting, if_neg hq.symm, Nat.add_zero]
  · rintro k (rfl | rfl) _ _
    · exact .inl hpair.accepted.topic_eq
    · exact .inr hpair.rejected.topic_eq
  · exact fun a' r' hpair' => hpair'.unique hpair
  · by_cases hzero : t.waiting (s.ackWaitList i).target = 0
    · rw [if_pos hzero] at ha hr
      refine .inr ⟨hzero, ?_⟩
      rintro k (rfl | rfl) huses
      · exact absurd huses ha
      · exact absurd huses hr
    · rw [if_neg hzero] at ha hr
      exact .inl ⟨Nat.pos_of_ne_zero hzero, ha, hr⟩

/-- What has been completed is less than before. -/
theorem dwindles (h : s.Completes t i) (hused : (s.ackWaitList i).isFree = false)
    (hs : s.IsTallied) : s.Dwindles t where
  stack_eq := h.stack_eq
  filled := by
    intro k hk
    obtain ⟨hp, a, r, hpair⟩ := hs.needed _ (waiting_pos hused)
    have ha : k ≠ a := fun heq => hpair.accepted.settled (heq ▸ hk)
    have hr : k ≠ r := fun heq => hpair.rejected.settled (heq ▸ hk)
    rw [h.entries_eq hp hpair, Function.update_of_ne hr, Function.update_of_ne ha]
  topics := h.topics
  records := by
    intro j hj
    have hne : j ≠ i := by
      rintro rfl
      rw [h.acks] at hj
      simp [freeAck, setAck] at hj
    rw [h.acks]
    exact Function.update_of_ne hne _ _

end Completes

/-! ## A record that is added -/

section Joining

variable {token : List UInt8} {callback : CallbackName} {context : Nat}

/-- A name that is short enough is stored as a whole. -/
theorem target_addToAckWaitList (w : World) (i : AckIndex) (hp : p.IsShort) :
    ((w.addToAckWaitList i p token callback context).ackWaitList i).target = p := by
  have htake : p.thing.take maxSizeOfThingName = p.thing := List.take_of_length_le (Nat.le_of_lt hp)
  simp only [addToAckWaitList, setAck, Function.update_self, AckRecord.target, AckRecord.thingText]
  rw [htake, if_pos (show p.thing.length < maxSizeOfThingName from hp)]

/-- One more waits for the target of the new record. -/
theorem waiting_addToAckWaitList (hp : p.IsShort) (hfree : (s.ackWaitList i).isFree = true)
    (hacks : t.ackWaitList = (s.addToAckWaitList i p token callback context).ackWaitList)
    (q : Target) : t.waiting q = s.waiting q + if p = q then 1 else 0 := by
  have htarget : (t.ackWaitList i).target = p := by
    rw [hacks, target_addToAckWaitList s i hp]
  rw [waiting_of_agree hfree, htarget]
  · rw [hacks]
    simp [addToAckWaitList, setAck]
  · intro j hj
    rw [hacks]
    exact Function.update_of_ne hj _ _

/-- An action with a pair of entries that counts the new record already. -/
theorem IsTallied.joined (hs : s.IsTallied) (hp : p.IsShort)
    (hfree : (s.ackWaitList i).isFree = true)
    (hacks : t.ackWaitList = (s.addToAckWaitList i p token callback context).ackWaitList)
    (hentries : ∀ k, k ≠ a → k ≠ r → t.subscriptionList k = s.subscriptionList k)
    (htopics : ∀ k, (t.subscriptionList k).topic = (s.subscriptionList k).topic)
    (hfilling : ∀ k, k ≠ a → k ≠ r → (t.IsFilling k ↔ s.IsFilling k))
    (ha : t.IsEntry a p.accepted (s.waiting p + 1)) (hr : t.IsEntry r p.rejected (s.waiting p + 1))
    (hothers : ∀ k, k = a ∨ k = r → s.Uses k → ¬ s.IsFilling k →
      (s.subscriptionList k).topic = p.accepted ∨ (s.subscriptionList k).topic = p.rejected)
    (honly : ∀ a' r', s.IsPair p a' r' → a' = a ∧ r' = r) : t.IsTallied := by
  have hwaiting := waiting_addToAckWaitList (t := t) hp hfree hacks
  have hown : t.waiting p = s.waiting p + 1 := by rw [hwaiting, if_pos rfl]
  apply hs.settles (p := p) (a := a) (r := r)
  refine ⟨⟨hentries, fun k => .inl (htopics k), hfilling, ?_⟩, hp, hothers, honly, ?_⟩
  · intro q hq
    rw [hwaiting, if_neg hq.symm, Nat.add_zero]
  · rw [← hown] at ha hr
    exact .inl ⟨hown ▸ Nat.succ_pos _, ha, hr⟩

end Joining

/-- The pair of an action is present just if it is waited for. -/
theorem IsTallied.isSubscriptionPresent_iff (hs : s.IsTallied) (hsettled : ∀ k, ¬ s.IsFilling k)
    (hp : p.IsShort) : s.isSubscriptionPresent p = true ↔ 0 < s.waiting p := by
  have hlisted {topic : List UInt8} :
      s.isListed topic = true ↔ ∃ k, s.Uses k ∧ (s.subscriptionList k).topic = topic := by
    simp [isListed, Uses]
  rw [isSubscriptionPresent, Bool.and_eq_true, Bool.and_eq_true, hlisted, hlisted,
    decide_eq_true_iff]
  constructor
  · rintro ⟨⟨k, huses, htopic⟩, -⟩
    exact (hs.exists_pair_of_accepted hp huses (hsettled k) htopic).1
  · intro hwaits
    obtain ⟨-, a, r, hpair⟩ := hs.needed p hwaits
    exact ⟨⟨a, hpair.accepted.uses, hpair.accepted.topic_eq⟩,
      ⟨r, hpair.rejected.uses, hpair.rejected.topic_eq⟩, Target.accepted_ne_rejected hp hp⟩

/-- A record that joins the pair that is present. -/
theorem IsTallied.incremented {token : List UInt8} {callback : CallbackName} {context : Nat}
    (hs : s.IsTallied) (hsettled : ∀ k, ¬ s.IsFilling k) (hp : p.IsShort)
    (hpresent : s.isSubscriptionPresent p = true) (hfree : (s.ackWaitList i).isFree = true)
    (hstack : t.stack = s.stack)
    (hacks : t.ackWaitList = (s.addToAckWaitList i p token callback context).ackWaitList)
    (hentries : t.subscriptionList = (s.incrementSubscriptionCnt p false).subscriptionList) :
    t.IsTallied := by
  -- somebody waits for the shadow, so its pair of entries is there
  have hwaits := (hs.isSubscriptionPresent_iff hsettled hp).mp hpresent
  obtain ⟨-, a, r, hpair⟩ := hs.needed p hwaits
  have htopics (k : SubscriptionIndex) :
      (t.subscriptionList k).topic = (s.subscriptionList k).topic := by
    rw [hentries]
    dsimp only [incrementSubscriptionCnt]
    split <;> rfl
  have hfilling (k : SubscriptionIndex) := isFilling_congr (k := k) hstack
  have hroom : s.waiting p < 255 := (s.waiting_le p).trans_lt (by decide)
  have hentry {k : SubscriptionIndex} {topic : List UInt8} (hk : s.IsEntry k topic (s.waiting p))
      (htopic : topic = p.accepted ∨ topic = p.rejected) : t.IsEntry k topic (s.waiting p + 1) := by
    have hrecord : t.subscriptionList k =
        { s.subscriptionList k with
          count := (s.subscriptionList k).count + 1
          isSticky := false } := by
      rw [hentries]
      dsimp only [incrementSubscriptionCnt]
      rw [if_pos]
      rw [show (s.subscriptionList k).isFree = false from hk.uses, hk.topic_eq]
      simpa using htopic
    refine ⟨?_, (hfilling k).not.mpr hk.settled, (htopics k).trans hk.topic_eq, ?_, ?_, ?_⟩
    · rw [Uses, hrecord]
      exact hk.uses
    · rw [hrecord, UInt8.toNat_add, hk.count_eq]
      exact Nat.mod_eq_of_lt (Nat.succ_lt_succ hroom)
    · rw [hrecord]
    · intro l hl
      rw [htopics]
      exact hk.first l hl
  refine hs.joined hp hfree hacks ?_ htopics (fun k _ _ => hfilling k)
    (hentry hpair.accepted (.inl rfl)) (hentry hpair.rejected (.inr rfl)) ?_
    fun a' r' h => h.unique hpair
  · intro k hka hkr
    -- an entry of another pair has another topic
    rw [hentries]
    dsimp only [incrementSubscriptionCnt]
    rw [if_neg]
    intro hmatches
    rw [Bool.and_eq_true, Bool.not_eq_true', Bool.or_eq_true, decide_eq_true_iff,
      decide_eq_true_iff] at hmatches
    rcases hmatches with ⟨huses, htopic | htopic⟩
    · obtain ⟨-, r', hpair'⟩ := hs.exists_pair_of_accepted hp huses (hsettled k) htopic
      exact hka (hpair'.unique hpair).1
    · obtain ⟨-, a', hpair'⟩ := hs.exists_pair_of_rejected hp huses (hsettled k) htopic
      exact hkr (hpair'.unique hpair).2
  · rintro k (rfl | rfl) _ _
    · exact .inl hpair.accepted.topic_eq
    · exact .inr hpair.rejected.topic_eq

/-! ## Entries that are filled -/

/-- An action that is not waited for has no pair. -/
theorem IsTallied.not_isPair (hs : s.IsTallied) (hp : p.IsShort) (hzero : s.waiting p = 0) :
    ¬ s.IsPair p a r := by
  intro hpair
  have hwaits := (hs.exists_pair_of_accepted hp hpair.accepted.uses hpair.accepted.settled
    hpair.accepted.topic_eq).1
  exact hwaits.ne' hzero

/-- While entries are being filled they do not count. -/
theorem IsTallied.filling (hs : s.IsTallied) (hp : p.IsShort) (hzero : s.waiting p = 0)
    (hacks : t.ackWaitList = s.ackWaitList)
    (hentries : ∀ k, k ≠ a → k ≠ r → t.subscriptionList k = s.subscriptionList k)
    (htopics : ∀ k, (t.subscriptionList k).topic = (s.subscriptionList k).topic ∨
      (t.subscriptionList k).topic = p.accepted ∨ (t.subscriptionList k).topic = p.rejected)
    (hfilling : ∀ k, k ≠ a → k ≠ r → (t.IsFilling k ↔ s.IsFilling k))
    (hown : ∀ k, k = a ∨ k = r → t.IsFilling k)
    (hunused : ∀ k, k = a ∨ k = r → s.Uses k → s.IsFilling k) : t.IsTallied := by
  have hwaiting := waiting_congr hacks
  apply hs.settles (p := p) (a := a) (r := r)
  refine ⟨⟨hentries, htopics, hfilling, fun q _ => hwaiting q⟩, hp, ?_, ?_, ?_⟩
  · exact fun k hk huses hsettled => absurd (hunused k hk huses) hsettled
  · exact fun a' r' hpair => absurd hpair (hs.not_isPair hp hzero)
  · exact .inr ⟨(hwaiting p).trans hzero, fun k hk _ => hown k hk⟩

/-- No entry in front of those that are taken for an action has one of its topics. -/
theorem IsTallied.first (hs : s.IsTallied) (hsettled : ∀ k, ¬ s.IsFilling k) (hp : p.IsShort)
    (hzero : s.waiting p = 0) (ha : s.freeSubscription = some a)
    (hr : s.withSubscriptionTaken.freeSubscription = some r) :
    a < r ∧ ∀ l < r, l ≠ a →
      (s.subscriptionList l).topic ≠ p.accepted ∧ (s.subscriptionList l).topic ≠ p.rejected := by
  have htaken := subscriptionList_withSubscriptionTaken ha
  obtain ⟨hafree, habefore⟩ := firstIndex_eq_some_iff.mp ha
  obtain ⟨hrfree, hrbefore⟩ := firstIndex_eq_some_iff.mp hr
  rw [htaken] at hrfree hrbefore
  have hne : r ≠ a := by
    rintro rfl
    rw [Function.update_self] at hrfree
    cases hrfree
  constructor
  · apply lt_of_le_of_ne _ hne.symm
    by_contra hlt
    rw [Function.update_of_ne hne] at hrfree
    rw [habefore r (not_le.mp hlt)] at hrfree
    cases hrfree
  · intro l hl hla
    have huses : s.Uses l := by
      have hbefore := hrbefore l hl
      rw [Function.update_of_ne hla] at hbefore
      exact hbefore
    constructor
    · intro htopic
      exact (hs.exists_pair_of_accepted hp huses (hsettled l) htopic).1.ne' hzero
    · intro htopic
      exact (hs.exists_pair_of_rejected hp huses (hsettled l) htopic).1.ne' hzero

end World

end MqttClient.Shadow
