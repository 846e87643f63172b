import MqttClient.Types
import Mathlib.Data.Multiset.Filter

/-! # The table of message handlers

A fixed number of slots, filled by subscribing and freed by unsubscribing. A
slot is found again by its position, so the table is a list whose length never
changes.
-/

namespace MqttClient

/-- `AWS_IOT_MQTT_NUM_SUBSCRIBE_HANDLERS`. -/
def numSubscribeHandlers : Nat := 100

namespace MessageHandler

/-- A slot as `aws_iot_mqtt_init` leaves it. -/
def cleared (h : MessageHandler) : MessageHandler :=
  { h with topicName := none, qos := qos0, applicationHandler := none, applicationHandlerData := 0 }

def isFree (h : MessageHandler) : Bool := h.topicName.isNone

/-- The test by which unsubscribing finds its slots. -/
def hasFilter (h : MessageHandler) (topicFilter : CString) : Bool :=
  match h.topicName with
  | none => false
  | some topicName => topicName.strcmpEq topicFilter

/-- Freeing a slot only resets its topic name. -/
def freed (h : MessageHandler) : MessageHandler := { h with topicName := none }

@[simp] theorem isFree_freed (h : MessageHandler) : h.freed.isFree = true := rfl

theorem hasFilter_of_isFree {h : MessageHandler} (hfree : h.isFree = true)
    (topicFilter : CString) : h.hasFilter topicFilter = false := by
  rw [hasFilter, Option.isNone_iff_eq_none.mp hfree]

end MessageHandler

/-- `_aws_iot_mqtt_internal_is_topic_matched`, on the characters of the filter
and of the topic name. -/
def isTopicMatched : List UInt8 → List UInt8 → Bool
  | [], name => name.isEmpty
  | _ :: _, [] => false
  | f :: filter, c :: name =>
      if c = 47 ∧ f ≠ 47 then false
      else if f ≠ 43 ∧ f ≠ 35 ∧ f ≠ c then false
      else if f = 43 then isTopicMatched filter (name.dropWhile (· ≠ 47))
      else if f = 35 then isTopicMatched filter []
      else isTopicMatched filter name

/-- The test by which `deliverMessage` selects a slot for a topic. -/
def MessageHandler.receives (h : MessageHandler) (topicName : List UInt8) (topicNameLen : UInt16) :
    Bool :=
  match h.topicName with
  | none => false
  | some topicFilter =>
      (topicNameLen = h.topicNameLen && strncmpEq topicName topicFilter.bytes topicNameLen.toNat) ||
        isTopicMatched topicFilter.text topicName

/-- `messageHandlers`. -/
structure HandlerTable where
  slots : List MessageHandler
  size_eq : slots.length = numSubscribeHandlers

namespace HandlerTable

def slot (t : HandlerTable) (i : Nat) : MessageHandler :=
  t.slots.getD i ⟨none, 0, qos0, none, 0⟩

def set (t : HandlerTable) (i : Nat) (h : MessageHandler) : HandlerTable where
  slots := t.slots.set i h
  size_eq := by rw [List.length_set, t.size_eq]

def map (t : HandlerTable) (f : MessageHandler → MessageHandler) : HandlerTable where
  slots := t.slots.map f
  size_eq := by rw [List.length_map, t.size_eq]

/-- `_aws_iot_mqtt_get_free_message_handler_index`: the number of slots if none is free. -/
def getFreeMessageHandlerIndex (t : HandlerTable) : Nat := t.slots.findIdx MessageHandler.isFree

/-- Some slot holds this filter. -/
def subscriptionExists (t : HandlerTable) (topicFilter : CString) : Bool :=
  t.slots.any (·.hasFilter topicFilter)

/-- Free every slot that holds this filter. -/
def remove (t : HandlerTable) (topicFilter : CString) : HandlerTable :=
  t.map fun h => if h.hasFilter topicFilter then h.freed else h

/-- The table `aws_iot_mqtt_init` leaves. -/
def cleared (t : HandlerTable) : HandlerTable := t.map MessageHandler.cleared

/-- The subscriptions in the table, by slot. -/
def occupied (t : HandlerTable) : Multiset MessageHandler :=
  ↑(t.slots.filter fun h => !h.isFree)

@[simp] theorem slot_set_self (t : HandlerTable) {i : Nat} (h : MessageHandler)
    (hi : i < numSubscribeHandlers) : (t.set i h).slot i = h := by
  simp [slot, set, List.getD_eq_getElem?_getD, t.size_eq, hi]

theorem slot_set_of_ne (t : HandlerTable) {i j : Nat} (h : MessageHandler) (hij : i ≠ j) :
    (t.set i h).slot j = t.slot j := by
  simp [slot, set, List.getD_eq_getElem?_getD, List.getElem?_set_ne hij]

theorem slot_remove (t : HandlerTable) (topicFilter : CString) (i : Nat) :
    (t.remove topicFilter).slot i =
      if (t.slot i).hasFilter topicFilter then (t.slot i).freed else t.slot i := by
  simp only [slot, remove, map, List.getD_eq_getElem?_getD, List.getElem?_map]
  cases t.slots[i]? <;> rfl

theorem isFree_slot_cleared (t : HandlerTable) (i : Nat) : (t.cleared.slot i).isFree = true := by
  simp only [slot, cleared, map, List.getD_eq_getElem?_getD, List.getElem?_map]
  cases t.slots[i]? <;> rfl

theorem slot_eq_getElem (t : HandlerTable) {i : Nat} (hi : i < t.slots.length) :
    t.slot i = t.slots[i] := by
  simp [slot, List.getD_eq_getElem?_getD, hi]

theorem isFree_slot_getFreeMessageHandlerIndex (t : HandlerTable)
    (h : t.getFreeMessageHandlerIndex < numSubscribeHandlers) :
    (t.slot t.getFreeMessageHandlerIndex).isFree = true := by
  have hlength : t.getFreeMessageHandlerIndex < t.slots.length := t.size_eq.symm ▸ h
  rw [slot_eq_getElem t hlength]
  exact List.findIdx_getElem

/-- Filling a free slot adds a subscription. -/
theorem occupied_set {t : HandlerTable} {i : Nat} {h : MessageHandler}
    (hi : i < numSubscribeHandlers) (hfree : (t.slot i).isFree = true) (hh : h.isFree = false) :
    (t.set i h).occupied = h ::ₘ t.occupied := by
  have hlength : i < t.slots.length := t.size_eq.symm ▸ hi
  have hslot : t.slots[i].isFree = true := by
    rwa [slot_eq_getElem t hlength] at hfree
  have hslots : t.slots = t.slots.take i ++ t.slots[i] :: t.slots.drop (i + 1) := by
    rw [List.getElem_cons_drop, List.take_append_drop]
  have hoccupied : t.slots.filter (!·.isFree) =
      (t.slots.take i).filter (!·.isFree) ++ (t.slots.drop (i + 1)).filter (!·.isFree) := by
    conv => lhs; rw [hslots]
    rw [List.filter_append, List.filter_cons, if_neg (by simp [hslot])]
  simp only [occupied, set, List.set_eq_take_append_cons_drop, if_pos hlength, List.filter_append,
    List.filter_cons, hh, hoccupied, Bool.not_false, if_true, Multiset.cons_coe,
    Multiset.coe_eq_coe]
  exact List.perm_middle

/-- Unsubscribing removes the subscriptions to its filter. -/
theorem occupied_remove (t : HandlerTable) (topicFilter : CString) :
    (t.remove topicFilter).occupied = t.occupied.filter fun h => !h.hasFilter topicFilter := by
  simp only [occupied, remove, map, Multiset.filter_coe]
  congr 1
  induction t.slots with
  | nil => rfl
  | cons h slots ih =>
      rw [List.map_cons, List.filter_cons, List.filter_cons, ih]
      by_cases hfilter : h.hasFilter topicFilter = true
      · cases hfree : h.isFree <;> simp [hfilter]
      · cases hfree : h.isFree <;> simp [hfilter, hfree]

theorem exists_mem_occupied_of_subscriptionExists {t : HandlerTable} {topicFilter : CString}
    (h : t.subscriptionExists topicFilter = true) :
    ∃ handler ∈ t.occupied, handler.hasFilter topicFilter = true := by
  obtain ⟨handler, hmem, hfilter⟩ := List.any_eq_true.mp h
  refine ⟨handler, ?_, hfilter⟩
  have hfree : handler.isFree = false := by
    by_contra hfree
    rw [MessageHandler.hasFilter_of_isFree (Bool.not_eq_false _ ▸ hfree)] at hfilter
    cases hfilter
  exact Multiset.mem_coe.mpr (List.mem_filter.mpr ⟨hmem, by rw [hfree]; rfl⟩)

/-- No slot is free exactly when every slot holds a subscription. -/
theorem numSubscribeHandlers_le_getFreeMessageHandlerIndex_iff (t : HandlerTable) :
    numSubscribeHandlers ≤ t.getFreeMessageHandlerIndex ↔
      t.occupied.card = numSubscribeHandlers := by
  rw [getFreeMessageHandlerIndex, occupied, Multiset.coe_card, ← t.size_eq]
  constructor
  · intro h
    rw [List.filter_eq_self.mpr]
    intro handler hmem
    have heq : t.slots.findIdx MessageHandler.isFree = t.slots.length :=
      Nat.le_antisymm List.findIdx_le_length h
    have hfree : handler.isFree = false := List.findIdx_eq_length.mp heq handler hmem
    rw [hfree]
    rfl
  · intro h
    rw [List.findIdx_eq_length.mpr]
    intro handler hmem
    have hfilter := List.length_filter_eq_length_iff.mp h handler hmem
    simpa using hfilter

theorem occupied_cleared (t : HandlerTable) : t.cleared.occupied = 0 := by
  rw [occupied, cleared, map, List.filter_map, List.filter_eq_nil_iff.mpr]
  · rfl
  · exact fun _ _ => nofun

end HandlerTable

end MqttClient
