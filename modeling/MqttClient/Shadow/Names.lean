import MqttClient.Shadow.Script

/-! # Names of things in topics and records

The topics of an action are printed from the name that the application passes, those that
are looked up when its answer has come from the name that has been kept in a record. The
field for it is shorter than the room that the topics have.
-/

namespace MqttClient.Shadow

open Effect Program

variable {p : Target} {k k' : ShadowAckTopicType}

namespace Target

/-- The topic of which `snprintf` leaves what fits into the buffer. -/
def wholeTopic (p : Target) (k : ShadowAckTopicType) : List UInt8 :=
  ascii "$aws/things/" ++ p.thing ++ topicSuffix p.action k

/-- The string in a record of the action is the name: it leaves room for a terminator, or
what is beyond the field is what the next field, the action, holds. -/
def FitsRecord (p : Target) : Prop :=
  p.thing.length < maxSizeOfThingName ∨ p.thing.drop maxSizeOfThingName =
    AckRecord.actionBytes p.action

instance (p : Target) : Decidable p.FitsRecord := inferInstanceAs (Decidable (_ ∨ _))

theorem topic_eq_wholeTopic (h : p.thing.length ≤ 74) (k : ShadowAckTopicType) :
    p.topic k = p.wholeTopic k := by
  apply List.take_of_length_le
  have hsuffix := length_topicSuffix_le p.action k
  have hprefix : (ascii "$aws/things/").length = 12 := by decide
  simp only [List.length_append, hprefix, maxShadowTopicLengthBytes]
  omega

theorem length_topic_lt (p : Target) (k : ShadowAckTopicType) :
    (p.topic k).length < maxShadowTopicLengthBytes :=
  (List.length_take_le _ _).trans_lt (by decide)

/-- Different kinds of topics of one action are different. -/
theorem wholeTopic_inj (h : p.wholeTopic k = p.wholeTopic k') : k = k' := by
  have hsuffix : topicSuffix p.action k <:+ topicSuffix p.action k' := by
    rw [List.append_cancel_left h]
  exact (eq_of_topicSuffix_suffix hsuffix).2

end Target

/-! ## What an action leaves behind -/

namespace World

/-- The action has just returned: it has published its request and added this record. -/
def HasTracked (w : World) (p : Target) (i : AckIndex) : Prop :=
  ∃ frame rc isSticky doc rest,
    w.trace = .leave frame rc :: .awaited i p isSticky :: .published (p.topic .action) doc :: rest

/-- The topics of the action are complete and different, and the record leads to those that
have been subscribed. -/
structure SameTopics (w : World) (p : Target) (i : AckIndex) : Prop where
  complete : ∀ k, p.topic k = p.wholeTopic k ∧ (p.topic k).length < maxShadowTopicLengthBytes
  distinct : ∀ k k', p.topic k = p.topic k' → k = k'
  accepted : (w.ackWaitList i).target.accepted = p.accepted
  rejected : (w.ackWaitList i).target.rejected = p.rejected

def TracksTopics (w : World) (p : Target) : Prop := ∃ i, w.HasTracked p i ∧ w.SameTopics p i

end World

/-! ## The record of a name -/

theorem length_actionBytes_le (action : ShadowAction) :
    (AckRecord.actionBytes action).length ≤ 1 := by
  cases action <;> decide

theorem thingText_eq_iff {r : AckRecord} (hthing : r.thingName = p.thing.take maxSizeOfThingName)
    (haction : r.action = p.action) : r.thingText = p.thing ↔ p.FitsRecord := by
  rw [AckRecord.thingText, hthing, haction, Target.FitsRecord, List.length_take]
  by_cases h : p.thing.length < maxSizeOfThingName
  · rw [if_pos (Nat.lt_of_le_of_lt (Nat.min_le_right _ _) h), List.take_of_length_le h.le]
    exact iff_of_true rfl (.inl h)
  · rw [if_neg (by omega), or_iff_right h]
    constructor
    · intro heq
      have hdrop := congrArg (List.drop maxSizeOfThingName) heq
      rw [List.drop_left' (by rw [List.length_take]; omega)] at hdrop
      exact hdrop.symm
    · intro hdrop
      rw [← hdrop, List.take_append_drop]

theorem length_thingText_le {r : AckRecord}
    (hthing : r.thingName = p.thing.take maxSizeOfThingName) :
    r.thingText.length ≤ maxSizeOfThingName + 1 := by
  have haction := length_actionBytes_le r.action
  have htake : r.thingName.length ≤ maxSizeOfThingName := hthing ▸ List.length_take_le _ _
  unfold AckRecord.thingText
  split
  · omega
  · rw [List.length_append]
    omega

/-- The topics of the action are right just when the record keeps its name. -/
theorem sameTopics_iff {w : World} {i : AckIndex}
    (hthing : (w.ackWaitList i).thingName = p.thing.take maxSizeOfThingName)
    (haction : (w.ackWaitList i).action = p.action) : w.SameTopics p i ↔ p.FitsRecord := by
  have htext := thingText_eq_iff hthing haction
  have hlength := length_thingText_le hthing
  have hfield : maxSizeOfThingName = 50 := rfl
  constructor
  · intro h
    have haccepted := h.accepted
    rw [Target.accepted, Target.accepted, (h.complete .accepted).1,
      Target.topic_eq_wholeTopic (by simp only [AckRecord.target]; omega), Target.wholeTopic,
      Target.wholeTopic, AckRecord.target, haction] at haccepted
    exact htext.mp (List.append_cancel_left (List.append_cancel_right haccepted))
  · intro hfits
    have heq := htext.mpr hfits
    rw [heq] at hlength
    have hwhole := fun k => p.topic_eq_wholeTopic (by omega) k
    have htarget : (w.ackWaitList i).target = p := by
      rw [AckRecord.target, heq, haction]
    refine ⟨fun k => ⟨hwhole k, p.length_topic_lt k⟩, ?_, by rw [htarget], by rw [htarget]⟩
    intro k k' hkinds
    rw [hwhole, hwhole] at hkinds
    exact Target.wholeTopic_inj hkinds

/-! ## A run of the action -/

section Runs

variable {allow : (q : Query) → World → Answer q → Prop} {w w' : World}

/-- Where a success is wanted the next part of a program has run. -/
theorem returns_onSuccess {rc : IotError} {next : M IotError}
    (h : Returns allow (onSuccess rc next) w .success w') : Returns allow next w .success w' := by
  unfold onSuccess at h
  split at h
  · exact h
  next hrc => exact absurd (returns_ret.mp h).1.symm hrc

/-- A request that succeeds has been published. -/
theorem trace_of_mqttPublish {topic payload : List UInt8}
    (h : Returns allow (mqttPublish topic payload) w .success w') :
    w'.trace = .published topic payload :: w.trace := by
  obtain ⟨rc, -, h⟩ := returns_ask.mp h
  obtain ⟨bodyRc, t, hbody, h⟩ := returns_bind.mp (returns_onSuccess h)
  obtain ⟨rc', -, h⟩ := returns_ask.mp h
  obtain ⟨hrc, rfl⟩ := returns_ret.mp h
  have hbodyRc : bodyRc = .success := by
    split_ifs at hrc with hboth
    · exact hboth.1
    · exact hrc.symm
  subst hbodyRc
  obtain ⟨sent, -, hbody⟩ := returns_ask.mp hbody
  obtain ⟨_, u, hemit, hret⟩ := returns_bind.mp (returns_onSuccess hbody)
  rw [(returns_ret.mp hret).2, returns_modify.mp hemit]
  rfl

variable {fuel : Nat} {call : Procedure → M IotError}

/-- A tracked action that succeeds ends with its request and its record. -/
theorem record_of_trackedAction {doc token : List UInt8} {callback : CallbackName}
    {callbackContext : Nat} {isSticky : Bool}
    (h : Returns allow (trackedAction fuel call p doc token callback callbackContext isSticky) w
      .success w') :
    ∃ i rest, w'.trace = .awaited i p isSticky :: .published (p.topic .action) doc :: rest ∧
      (w'.ackWaitList i).thingName = p.thing.take maxSizeOfThingName ∧
      (w'.ackWaitList i).action = p.action := by
  obtain ⟨_, _, hget, hmatch⟩ := returns_bind.mp h
  obtain ⟨rfl, rfl⟩ := returns_atomically.mp hget
  split at hmatch
  · exact absurd (returns_ret.mp hmatch).1 IotError.noConfusion
  next i hfree =>
      obtain ⟨rc, t, -, h⟩ := returns_bind.mp hmatch
      obtain ⟨rc', u, hpublish, h⟩ := returns_bind.mp (returns_onSuccess h)
      have hsuccess : rc' = .success := by
        by_contra hne
        rw [onSuccess, if_neg hne] at h
        exact hne (returns_ret.mp h).1.symm
      subst hsuccess
      obtain ⟨_, v, hadd, hret⟩ := returns_bind.mp (returns_onSuccess h)
      obtain ⟨-, rfl⟩ := returns_ret.mp hret
      have hrecord := returns_modify.mp hadd
      have htrace := trace_of_mqttPublish hpublish
      refine ⟨i, t.trace, ?_, ?_, ?_⟩
      · rw [hrecord, ← htrace]
        rfl
      · rw [hrecord]
        simp only [World.log, World.addToAckWaitList, World.setAck, Function.update_self]
      · rw [hrecord]
        simp only [World.log, World.addToAckWaitList, World.setAck, Function.update_self]

/-- An action with a token and a callback that succeeds tracks its topics just when its
thing's name fits the record. -/
theorem tracksTopics_iff {args : ActionArgs} {thing doc : Text} {callback : CallbackName}
    {token : List UInt8} (hthing : args.thingName = some thing)
    (hdoc : args.jsonDocument = some doc) (hcallback : args.callback = some callback)
    (htoken : w.requestToken doc.chars = some token)
    (h : Returns allow (internalAction fuel call args) w .success w') :
    w'.TracksTopics ⟨thing.chars, args.action⟩ ↔
      Target.FitsRecord ⟨thing.chars, args.action⟩ := by
  unfold internalAction at h
  rw [hthing, hdoc] at h
  obtain ⟨_, u, hstart, hbody⟩ := returns_bind.mp h
  obtain ⟨hvalue, rfl⟩ := returns_atomically.mp hstart
  have hrequest : requestAction fuel call args ⟨thing.chars, args.action⟩ doc.chars (some token) =
      trackedAction fuel call ⟨thing.chars, args.action⟩ doc.chars token callback
        args.callbackContext args.isSticky := by
    unfold requestAction
    rw [hcallback]
  rw [hvalue, htoken, hrequest] at hbody
  obtain ⟨rc, t, htracked, hleave⟩ := returns_bind.mp hbody
  obtain ⟨_, v, hemit, hret⟩ := returns_bind.mp hleave
  obtain ⟨rfl, rfl⟩ := returns_ret.mp hret
  have hlast := returns_modify.mp hemit
  obtain ⟨i, rest, htrace, hname, haction⟩ := record_of_trackedAction htracked
  have htracks : w'.HasTracked ⟨thing.chars, args.action⟩ i := by
    refine ⟨.action args (some token), .success, args.isSticky, doc.chars, rest, ?_⟩
    rw [hlast, World.log, htrace]
  have hrecords : w'.ackWaitList = t.ackWaitList := by
    rw [hlast]
    rfl
  rw [← hrecords] at hname haction
  have hsame := sameTopics_iff hname haction
  constructor
  · rintro ⟨j, hj, htopics⟩
    -- the record is the one that the last event names
    have hji : j = i := by
      obtain ⟨_, _, _, _, _, hj⟩ := hj
      obtain ⟨_, _, _, _, _, hi⟩ := htracks
      rw [hi] at hj
      cases hj
      rfl
    subst hji
    exact hsame.mp htopics
  · intro hfits
    exact ⟨i, htracks, hsame.mpr hfits⟩

end Runs

def tokenDocument : Text := ⟨ascii "\x7b\"clientToken\":\"t\"\x7d", by decide⟩

/-- An update of a thing with a token, which is to be answered. -/
def trackedUpdate (thing : Text) : ActionArgs where
  thingName := some thing
  action := .update
  jsonDocument := some tokenDocument
  callback := some 0
  callbackContext := 0
  timeoutSeconds := 5
  isSticky := false

/-- The run of an update in which everything goes well. -/
def updateRun (thing : Text) : Option IotError × Script × World :=
  (internalAction 2 (api 2) (trackedUpdate thing)).run Script.answer ⟨[], [], []⟩ blankWorld

theorem returns_updateRun {thing : Text} (h : (updateRun thing).1 = some .success) :
    Returns (fun _ _ _ => True) (internalAction 2 (api 2) (trackedUpdate thing)) blankWorld .success
      (updateRun thing).2.2 := by
  unfold updateRun at h ⊢
  exact returns_run (fun _ _ _ _ => trivial) (keepsTo_true _ _ _) h

theorem requestToken_tokenDocument :
    blankWorld.requestToken tokenDocument.chars = some (ascii "t") := by
  decide +kernel

/-- A name with a character less than the record's field. -/
def longestName : Text := ⟨List.replicate 49 97, by decide⟩

theorem tracksTopics_longestName :
    (updateRun longestName).2.2.TracksTopics ⟨longestName.chars, .update⟩ :=
  (tracksTopics_iff rfl rfl rfl requestToken_tokenDocument
    (returns_updateRun (by decide +kernel))).mpr (.inl (by decide +kernel))

def fillingName : Text := ⟨List.replicate 50 97, by decide⟩

/-- The name that is kept for an update goes on with the number of the action. -/
theorem not_tracksTopics_fillingName :
    ¬ ∀ (fuel : Nat) (call : Procedure → M IotError) (args : ActionArgs) (thing doc : Text)
      (callback : CallbackName) (token : List UInt8) (w w' : World),
      args.thingName = some thing → args.jsonDocument = some doc →
        args.callback = some callback → w.requestToken doc.chars = some token →
          Returns (fun _ _ _ => True) (internalAction fuel call args) w .success w' →
            w'.TracksTopics ⟨thing.chars, args.action⟩ := by
  intro h
  obtain ⟨i, -, htopics⟩ := h 2 (api 2) (trackedUpdate fillingName) fillingName _ 0 (ascii "t")
    blankWorld _ rfl rfl rfl requestToken_tokenDocument (returns_updateRun (by decide +kernel))
  have hrecords : ∀ i, ((updateRun fillingName).2.2.ackWaitList i).target.accepted ≠
      Target.accepted ⟨fillingName.chars, .update⟩ := by decide +kernel
  exact hrecords i htopics.accepted

end MqttClient.Shadow
