import MqttClient.Shadow.Disciplines
import MqttClient.Shadow.Versions

/-! # Where a version comes from

The version that the layer keeps is that of the device's own shadow. Which message
speaks of that shadow is decided by the words in the string that starts with its
topic, and for deltas by nothing but the subscription.
-/

namespace MqttClient.Shadow

open Effect Program

namespace World

/-- The topic of the message is that of the device's own thing with this suffix. -/
def IsOwnTopic (w : World) (m : MessageRef) (suffix : String) : Prop :=
  w.receivedTopic m = ascii "$aws/things/" ++ w.myThingName ++ ascii suffix

/-- The document of a message carries a version that exceeds the one that is kept. -/
def BringsVersion (w : World) (m : MessageRef) : Prop :=
  m.payloadLen ≤ shadowMaxSizeOfRxBuffer ∧
    ∃ tokenCount v, (w.withPayload m).rxTokenCount = some tokenCount ∧
      (w.withPayload m).withRxTokens.rxVersion tokenCount = some v ∧ w.shadowJsonVersionNum < v

/-- A response that brings a version and has the words that `isAckForMyThingName`
looks for is that to a get of the device's own thing. -/
def HasOwnResponse (w : World) (m : MessageRef) : Prop :=
  w.BringsVersion m → w.isAckForMyThingName (w.readText m.topicOff) = true →
    w.IsOwnTopic m "/shadow/get/accepted"

/-- A delta that brings a version is one of the device's own thing, as far as the
versions of deltas matter. -/
def HasOwnDelta (w : World) (m : MessageRef) : Prop :=
  w.BringsVersion m → w.shadowDiscardOldDeltaFlag = true →
    w.IsOwnTopic m "/shadow/update/delta"

/-- If the step calls one of the message callbacks, then for such a message. -/
def ReceivesOwn (s t : World) : Prop :=
  (∀ m, t.trace = .enter (.ackStatus m) :: s.trace → s.HasOwnResponse m) ∧
    ∀ m, t.trace = .enter (.delta m) :: s.trace → s.HasOwnDelta m

/-- If the step changes the version, it resets it, or a response or a delta that is
being handled has the topic of the device's own thing. -/
def ChangesByOwn (s t : World) : Prop :=
  t.shadowJsonVersionNum ≠ s.shadowJsonVersionNum →
    t.trace = .versionReset :: s.trace ∨
    (∃ m rest, s.stack = .ackStatus m :: rest ∧ s.IsOwnTopic m "/shadow/get/accepted") ∨
    ∃ m rest, s.stack = .delta m :: rest ∧ s.IsOwnTopic m "/shadow/update/delta"

instance (w : World) (m : MessageRef) (suffix : String) : Decidable (w.IsOwnTopic m suffix) :=
  inferInstanceAs (Decidable (_ = _))

theorem changesByOwn_of_eq {s t : World} (h : t.shadowJsonVersionNum = s.shadowJsonVersionNum) :
    s.ChangesByOwn t := fun hne => absurd h hne

end World

theorem coversTables_changesByOwn : CoversTables World.ChangesByOwn where
  refl := fun _ => World.changesByOwn_of_eq rfl
  part := by
    intro part s t _ hchange
    cases part with
    | event e => rw [hchange]; exact World.changesByOwn_of_eq rfl
    | version => exact fun _ => .inl (hchange ▸ rfl)
    | document | registry => rw [hchange.1]; exact World.changesByOwn_of_eq rfl
    | _ => rw [hchange]; exact World.changesByOwn_of_eq rfl
  awaited := fun _ _ _ _ _ _ _ => World.changesByOwn_of_eq rfl
  request := fun _ _ _ => World.changesByOwn_of_eq rfl

/-- The runs in which the message callbacks are called for such messages only. -/
abbrev ownDiscipline : Discipline World Answer :=
  alone (fun _ _ => True) (fun _ _ _ => True) World.ReceivesOwn World.ChangesByOwn

section Versions

variable {s t : World} {m : MessageRef} {tokenCount : Nat}

/-- A version is taken over from a message that brings it and has the words. -/
theorem changesByOwn_withResponseVersion (hown : s.HasOwnResponse m)
    (hlength : m.payloadLen ≤ shadowMaxSizeOfRxBuffer)
    (hcount : (s.withPayload m).rxTokenCount = some tokenCount)
    (ht : t = ((s.log (.enter (.ackStatus m))).withPayload m).withRxTokens) :
    t.ChangesByOwn (t.withResponseVersion m tokenCount) := by
  subst ht
  unfold World.withResponseVersion World.takesVersion
  split
  next => exact World.changesByOwn_of_eq rfl
  next v hv =>
      split at hv
      next hword =>
          obtain ⟨hversion, hnewer⟩ := Option.filter_eq_some_iff.mp hv
          have hlt : s.shadowJsonVersionNum < v := of_decide_eq_true hnewer
          have hbrings : s.BringsVersion m := ⟨hlength, tokenCount, v, hcount, hversion, hlt⟩
          exact fun _ => .inr (.inl ⟨m, s.stack, rfl, hown hbrings hword⟩)
      next => cases hv

/-- The version of a delta is taken over if old deltas are discarded. -/
theorem changesByOwn_withDeltaVersion (hown : s.HasOwnDelta m)
    (hlength : m.payloadLen ≤ shadowMaxSizeOfRxBuffer)
    (hcount : (s.withPayload m).rxTokenCount = some tokenCount)
    (ht : t = ((s.log (.enter (.delta m))).withPayload m).withRxTokens) :
    t.ChangesByOwn (t.withDeltaVersion tokenCount) := by
  subst ht
  unfold World.withDeltaVersion
  split
  next => exact World.changesByOwn_of_eq rfl
  next hold =>
      intro hne
      have hflag : s.shadowDiscardOldDeltaFlag = true := by
        by_contra hflag
        exact hne (if_neg hflag)
      cases hv : (s.withPayload m).withRxTokens.rxVersion tokenCount with
      | none =>
          have heq : (if s.shadowDiscardOldDeltaFlag = true then
              ((s.withPayload m).withRxTokens.rxVersion tokenCount).getD s.shadowJsonVersionNum
            else s.shadowJsonVersionNum) = s.shadowJsonVersionNum := by
            rw [hv]
            exact ite_self _
          exact absurd heq hne
      | some v =>
          have hnewer : s.shadowJsonVersionNum < v := by
            change ¬ (s.withPayload m).withRxTokens.isOldDelta tokenCount = true at hold
            unfold World.isOldDelta at hold
            rw [hv] at hold
            have hnewer : (s.withPayload m).withRxTokens.shadowDiscardOldDeltaFlag = true →
                (s.withPayload m).withRxTokens.shadowJsonVersionNum < v := by simpa using hold
            exact hnewer hflag
          have hbrings : s.BringsVersion m := ⟨hlength, tokenCount, v, hcount, hv, hnewer⟩
          exact .inr (.inr ⟨m, s.stack, rfl, hown hbrings hflag⟩)

theorem admitsVersions_own : AdmitsVersions ownDiscipline where
  response := fun _ _ m _ hmay => changesByOwn_withResponseVersion (hmay.1 m rfl)
  delta := fun _ _ m _ hmay => changesByOwn_withDeltaVersion (hmay.2 m rfl)

end Versions

theorem obeys_app (fuel : Nat) : Obeys ownDiscipline (app fuel) :=
  coversTables_changesByOwn.obeys_app (fun _ _ => trivial) (fun _ => trivial) (fun _ _ h => h)
    admitsVersions_own fuel

/-- In every run in which the message callbacks are called for such messages only,
the version changes only because of a response to a get of the device's own thing
or a delta of it, or because it is reset. -/
theorem changesByOwn_of_moves {fuel : Nat} {w s t : World} {p p' : M Unit}
    (hmoves : Moves (fun _ _ _ => True) World.ReceivesOwn (app fuel, w) (p, s))
    (hmove : Move (fun _ _ _ => True) World.ReceivesOwn (p, s) (p', t)) : s.ChangesByOwn t := by
  have hwp := obeys_app fuel w trivial
  rcases (wp_move (D := ownDiscipline) (wp_moves hwp hmoves) hmove).1 with hguar | heq
  · exact hguar
  · rw [heq]
    exact World.changesByOwn_of_eq rfl

/-! ## A response that brings a version -/

/-- An action on the thing itself, and the response to it, which brings a version. -/
def versionedAction (action : Call) (response : Traffic) : Script where
  traffic := [.done .success, .done .success, .done .success, response]
  calls := [some (connectAs "t"), some action, some (.yield 0)]
  expired := []

def versionedGet : Script :=
  versionedAction (.get (some (sampleText "t")) (some 0) 0 4 false)
    (sampleMessage "$aws/things/t/shadow/get/accepted"
      "\x7b\"version\":5,\"clientToken\":\"c-0\"\x7d")

def versionedUpdate : Script :=
  versionedAction
    (.update (some (sampleText "t"))
      (some (sampleText "\x7b\"clientToken\":\"x\"\x7d")) (some 0) 0 4
      false)
    (sampleMessage "$aws/things/t/shadow/update/accepted"
      "\x7b\"version\":5,\"clientToken\":\"x\"\x7d")

def World.receivesOwn (s t : World) : Bool :=
  match t.trace with
  | .enter (.ackStatus m) :: _ => s.IsOwnTopic m "/shadow/get/accepted"
  | .enter (.delta m) :: _ => s.IsOwnTopic m "/shadow/update/delta"
  | _ => true

theorem World.receivesOwn_of_eq_true (s t : World) (h : s.receivesOwn t = true) :
    s.ReceivesOwn t := by
  unfold receivesOwn at h
  constructor
  · intro m htrace
    rw [htrace] at h
    exact fun _ _ => of_decide_eq_true h
  · intro m htrace
    rw [htrace] at h
    exact fun _ _ => of_decide_eq_true h

theorem movesTo_versionedGet :
    versionedGet.movesTo (fun _ _ _ => true) World.receivesOwn 6 64 = true := by
  decide +kernel

theorem changesByOwn_versionedGet :
    (versionedGet.reached 6 65).2.shadowJsonVersionNum = 5 ∧
      (versionedGet.reached 6 64).2.shadowJsonVersionNum = 0 ∧
      (versionedGet.reached 6 64).2.ChangesByOwn (versionedGet.reached 6 65).2 :=
  ⟨by decide +kernel, by decide +kernel,
    changesByOwn_of_moves
      (Script.moves_reached (fun _ _ _ _ => trivial) World.receivesOwn_of_eq_true
        movesTo_versionedGet)
      (Script.move_reached (by decide +kernel)
        (World.receivesOwn_of_eq_true _ _ (by decide +kernel)))⟩

/-- The message that is being handled. -/
def World.handled (w : World) : Option MessageRef :=
  match w.stack with
  | .ackStatus m :: _ | .delta m :: _ => some m
  | _ => none

theorem World.not_changesByOwn {s t : World} {m : MessageRef} (hhandled : s.handled = some m)
    (hne : t.shadowJsonVersionNum ≠ s.shadowJsonVersionNum)
    (hversion : t.trace.head?.bind Event.version? ≠ none)
    (hget : ¬ s.IsOwnTopic m "/shadow/get/accepted")
    (hdelta : ¬ s.IsOwnTopic m "/shadow/update/delta") : ¬ s.ChangesByOwn t := by
  intro h
  rcases h hne with hreset | ⟨m', rest, hstack, hown⟩ | ⟨m', rest, hstack, hown⟩
  · rw [hreset] at hversion
    exact hversion rfl
  · rw [handled, hstack] at hhandled
    cases hhandled
    exact hget hown
  · rw [handled, hstack] at hhandled
    cases hhandled
    exact hdelta hown

theorem not_changesByOwn_versionedUpdate :
    ¬ ∀ (fuel : Nat) (w s t : World) (p p' : M Unit),
      Moves (fun _ _ _ => True) (fun _ _ => True) (app fuel, w) (p, s) →
      Move (fun _ _ _ => True) (fun _ _ => True) (p, s) (p', t) → s.ChangesByOwn t := by
  intro h
  have hmoves : versionedUpdate.movesTo (fun _ _ _ => true) (fun _ _ => true) 6 63 = true := by
    decide +kernel
  refine World.not_changesByOwn (m := ⟨5, 36, 41, 31⟩) (by decide +kernel) (by decide +kernel)
    (by decide +kernel) (by decide +kernel) (by decide +kernel)
    (h 6 blankWorld (versionedUpdate.reached 6 63).2 (versionedUpdate.reached 6 64).2
      (versionedUpdate.reached 6 63).1 (versionedUpdate.reached 6 64).1
      (Script.moves_reached (fun _ _ _ _ => trivial) (fun _ _ _ => trivial) hmoves)
      (Script.move_reached (by decide +kernel) trivial))

end MqttClient.Shadow
