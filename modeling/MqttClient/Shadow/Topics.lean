import MqttClient.Shadow.Jsmn
import Mathlib.Data.List.Infix

/-! # The topics of shadow actions

An action on a thing's shadow is requested on one topic and answered on two
others, whose names are printed into buffers of a fixed size. Names short enough
for the buffers are told apart by their thing, their action and their kind.
-/

namespace MqttClient.Shadow

/-- The characters of a C string. -/
structure Text where
  chars : List UInt8
  nonzero : 0 ∉ chars
  deriving DecidableEq

/-- `MAX_SIZE_OF_THING_NAME` and `MAX_SHADOW_TOPIC_LENGTH_BYTES`. -/
def maxSizeOfThingName : Nat := 50
def maxShadowTopicLengthBytes : Nat := 110

/-- `ShadowActions_t`. -/
inductive ShadowAction where
  | get | update | delete
  deriving DecidableEq

/-- `ShadowAckTopicTypes_t`. -/
inductive ShadowAckTopicType where
  | accepted | rejected | action
  deriving DecidableEq

def ShadowAction.word : ShadowAction → List UInt8
  | .get => ascii "get"
  | .update => ascii "update"
  | .delete => ascii "delete"

/-- What follows the thing's name. -/
def topicSuffix (action : ShadowAction) : ShadowAckTopicType → List UInt8
  | .accepted => ascii "/shadow/" ++ action.word ++ ascii "/accepted"
  | .rejected => ascii "/shadow/" ++ action.word ++ ascii "/rejected"
  | .action => ascii "/shadow/" ++ action.word

/-- `topicNameFromThingAndAction`: what `snprintf` leaves in the buffer. -/
def topicNameFromThingAndAction (thingName : List UInt8) (action : ShadowAction)
    (ackType : ShadowAckTopicType) : List UInt8 :=
  (ascii "$aws/things/" ++ thingName ++ topicSuffix action ackType).take
    (maxShadowTopicLengthBytes - 1)

/-- A thing and what is done to its shadow. -/
structure Target where
  thing : List UInt8
  action : ShadowAction
  deriving DecidableEq

namespace Target

def topic (p : Target) (ackType : ShadowAckTopicType) : List UInt8 :=
  topicNameFromThingAndAction p.thing p.action ackType

def accepted (p : Target) : List UInt8 := p.topic .accepted

def rejected (p : Target) : List UInt8 := p.topic .rejected

/-- The thing's name fits the buffer of an acknowledgement record. -/
def IsShort (p : Target) : Prop := p.thing.length < maxSizeOfThingName

instance (p : Target) : Decidable p.IsShort := inferInstanceAs (Decidable (_ < _))

end Target

/-- No suffix ends in another one. -/
theorem eq_of_topicSuffix_suffix {a a' : ShadowAction} {k k' : ShadowAckTopicType}
    (h : topicSuffix a k <:+ topicSuffix a' k') : a = a' ∧ k = k' := by
  revert h
  cases a <;> cases a' <;> cases k <;> cases k' <;> decide

theorem length_topicSuffix_le (action : ShadowAction) (ackType : ShadowAckTopicType) :
    (topicSuffix action ackType).length ≤ 23 := by
  cases action <;> cases ackType <;> decide

namespace Target

variable {p q : Target}

/-- A topic of a short name is not cut off. -/
theorem topic_of_isShort (hp : p.IsShort) (k : ShadowAckTopicType) :
    p.topic k = ascii "$aws/things/" ++ p.thing ++ topicSuffix p.action k := by
  apply List.take_of_length_le
  have hsuffix := length_topicSuffix_le p.action k
  have hprefix : (ascii "$aws/things/").length = 12 := by decide
  simp only [List.length_append, hprefix]
  simp only [IsShort, maxSizeOfThingName] at hp
  simp only [maxShadowTopicLengthBytes]
  omega

/-- Topics of short names tell the name, the action and the kind. -/
theorem topic_inj (hp : p.IsShort) (hq : q.IsShort) {k k' : ShadowAckTopicType}
    (h : p.topic k = q.topic k') : p = q ∧ k = k' := by
  rw [topic_of_isShort hp, topic_of_isShort hq, List.append_assoc, List.append_assoc,
    List.append_cancel_left_eq] at h
  have hkinds : p.action = q.action ∧ k = k' := by
    have hleft : topicSuffix p.action k <:+ p.thing ++ topicSuffix p.action k :=
      List.suffix_append _ _
    have hright : topicSuffix q.action k' <:+ p.thing ++ topicSuffix p.action k :=
      h ▸ List.suffix_append _ _
    rcases Nat.le_total (topicSuffix p.action k).length (topicSuffix q.action k').length with
      hle | hle
    · exact eq_of_topicSuffix_suffix (List.suffix_of_suffix_length_le hleft hright hle)
    · have hback := eq_of_topicSuffix_suffix (List.suffix_of_suffix_length_le hright hleft hle)
      exact ⟨hback.1.symm, hback.2.symm⟩
  obtain ⟨haction, hkind⟩ := hkinds
  rw [haction, hkind, List.append_cancel_right_eq] at h
  cases p
  cases q
  cases haction
  cases h
  exact ⟨rfl, hkind⟩

theorem accepted_ne_rejected (hp : p.IsShort) (hq : q.IsShort) : p.accepted ≠ q.rejected :=
  fun h => nomatch (topic_inj hp hq h).2

theorem accepted_inj (hp : p.IsShort) (hq : q.IsShort) (h : p.accepted = q.accepted) : p = q :=
  (topic_inj hp hq h).1

theorem rejected_inj (hp : p.IsShort) (hq : q.IsShort) (h : p.rejected = q.rejected) : p = q :=
  (topic_inj hp hq h).1

end Target

end MqttClient.Shadow
