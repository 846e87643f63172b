import MqttClient.Shadow.Script
import MqttClient.Shadow.Traversal

/-! # The order of the versions received

The version that the layer keeps only grows, unless it is reset. A delta is
dispatched if it is newer than that version, which then becomes its own.
-/

namespace MqttClient.Shadow

open Effect Program

/-- The version that an event brings to the layer. -/
def Event.version? : Event → Option UInt32
  | .versionTaken v => some v
  | .dispatched version _ => version
  | _ => none

/-- Where a delta is dispatched, its version exceeds those that came before. -/
def Event.Follows (later earlier : Event) : Prop :=
  ∀ v document, later = .dispatched (some v) document → ∀ u, earlier.version? = some u → u < v

/-- A step does not end in a world that lets old deltas pass, and does not reset
the version. -/
def World.Undisturbed (s t : World) : Prop :=
  t.shadowDiscardOldDeltaFlag = true ∧ t.trace ≠ .versionReset :: s.trace

/-- What one step does with the version. -/
inductive World.Receives (s t : World) : Prop
  | none (hversion : t.shadowJsonVersionNum = s.shadowJsonVersionNum) (htrace : t.trace = s.trace)
  | other (e : Event) (hversion : t.shadowJsonVersionNum = s.shadowJsonVersionNum)
      (he : e.version? = .none) (htrace : t.trace = e :: s.trace)
  | taken (v : UInt32) (hnewer : s.shadowJsonVersionNum < v) (hversion : t.shadowJsonVersionNum = v)
      (htrace : t.trace = .versionTaken v :: s.trace)
  | delta (v : UInt32) (document : List UInt8)
      (hnewer : t.shadowDiscardOldDeltaFlag = true →
        s.shadowJsonVersionNum < v ∧ t.shadowJsonVersionNum = v)
      (htrace : t.trace = .dispatched (some v) document :: s.trace)
  | reset (htrace : t.trace = .versionReset :: s.trace)

namespace World

theorem Receives.refl (s : World) : s.Receives s := .none rfl rfl

theorem receives_log (s : World) {e : Event} (he : e.version? = none) : s.Receives (s.log e) :=
  .other e rfl he rfl

theorem receives_withResponseVersion (s : World) (m : MessageRef) (tokenCount : Nat) :
    s.Receives (s.withResponseVersion m tokenCount) := by
  unfold withResponseVersion
  split
  next => exact .refl s
  next v hv =>
      have hnewer : s.shadowJsonVersionNum < v := by
        unfold takesVersion at hv
        split at hv
        next => simpa using (Option.filter_eq_some_iff.mp hv).2
        next => cases hv
      exact .taken v hnewer rfl rfl

theorem receives_withDeltaVersion (s : World) (tokenCount : Nat) :
    s.Receives (s.withDeltaVersion tokenCount) := by
  unfold withDeltaVersion
  split
  next => exact .refl s
  next hold =>
      cases hv : s.rxVersion tokenCount with
      | none =>
          refine .other (.dispatched none (s.rxDocument.text 0)) ?_ rfl (by rw [← hv]; rfl)
          simp [log]
      | some v =>
          refine .delta v (s.rxDocument.text 0) (fun hflag => ?_) (by rw [← hv]; rfl)
          have hflag' : s.shadowDiscardOldDeltaFlag = true := hflag
          simp only [isOldDelta, hflag', hv, Bool.true_and, Bool.not_eq_true',
            decide_eq_false_iff_not, not_not] at hold
          exact ⟨hold, by simp [hflag', log]⟩

theorem receives_of_changesTo {s t : World} {part : Part} (hpart : part.isPlain)
    (h : s.ChangesTo part t) : s.Receives t := by
  cases part with
  | event e =>
      rw [h]
      cases e <;> first | exact s.receives_log rfl | exact absurd hpart id
  | version => exact .reset (h ▸ rfl)
  | document | registry => rw [h.1]; exact .none rfl rfl
  | _ => rw [h]; exact .none rfl rfl

end World

/-- Every step does one of these things with the version. -/
theorem coversSteps_receives : CoversSteps World.Receives where
  refl := .refl
  part := fun _ _ _ => World.receives_of_changesTo
  awaited := fun _ i p _ _ _ isSticky => .other (.awaited i p isSticky) rfl rfl rfl
  response := World.receives_withResponseVersion
  delta := World.receives_withDeltaVersion
  request := fun _ _ _ => .other _ rfl rfl rfl

/-- The events since `w`, the newest first, as far as the version goes. -/
structure Orderly (w : World) (new : List Event) (t : World) : Prop where
  trace_eq : t.trace = new ++ w.trace
  follows : new.Pairwise Event.Follows
  le_version : ∀ e ∈ new, ∀ u, e.version? = some u → u ≤ t.shadowJsonVersionNum
  grown : w.shadowJsonVersionNum ≤ t.shadowJsonVersionNum

namespace Orderly

theorem refl (w : World) : Orderly w [] w where
  trace_eq := by rw [List.nil_append]
  follows := .nil
  le_version := by simp
  grown := UInt32.le_refl _

variable {w s t : World} {new : List Event}

/-- A new event keeps the order if its version is new and is the one that is kept. -/
theorem cons (h : Orderly w new s) (e : Event) (htrace : t.trace = e :: s.trace)
    (hgrown : s.shadowJsonVersionNum ≤ t.shadowJsonVersionNum)
    (hversion : ∀ u, e.version? = some u →
      s.shadowJsonVersionNum < u ∧ u ≤ t.shadowJsonVersionNum) : Orderly w (e :: new) t where
  trace_eq := by rw [htrace, h.trace_eq, List.cons_append]
  follows := by
    refine List.pairwise_cons.mpr ⟨?_, h.follows⟩
    intro earlier hmem v document hv u hu
    have hlast := h.le_version earlier hmem u hu
    have hnewer := (hversion v (by rw [hv]; rfl)).1
    exact UInt32.lt_of_le_of_lt hlast hnewer
  le_version := by
    intro e' hmem u hu
    rcases List.mem_cons.mp hmem with rfl | hmem
    · exact (hversion u hu).2
    · exact UInt32.le_trans (h.le_version e' hmem u hu) hgrown
  grown := UInt32.le_trans h.grown hgrown

/-- What one step does keeps the order. -/
theorem step (h : Orderly w new s) (hstep : s.Receives t) (hundisturbed : s.Undisturbed t) :
    ∃ new', Orderly w new' t := by
  cases hstep with
  | none hversion htrace =>
      refine ⟨new, by rw [htrace, h.trace_eq], h.follows, ?_, ?_⟩
      · rw [hversion]
        exact h.le_version
      · rw [hversion]
        exact h.grown
  | other e hversion he htrace =>
      refine ⟨e :: new, h.cons e htrace (UInt32.le_of_eq hversion.symm) ?_⟩
      intro u hu
      rw [he] at hu
      cases hu
  | taken v hnewer hversion htrace =>
      refine ⟨_ :: new, h.cons _ htrace ?_ ?_⟩
      · rw [hversion]
        exact UInt32.le_of_lt hnewer
      · intro u hu
        cases hu
        exact ⟨hnewer, UInt32.le_of_eq hversion.symm⟩
  | delta v document hnewer htrace =>
      obtain ⟨hlt, hversion⟩ := hnewer hundisturbed.1
      refine ⟨_ :: new, h.cons _ htrace ?_ ?_⟩
      · rw [hversion]
        exact UInt32.le_of_lt hlt
      · intro u hu
        cases hu
        exact ⟨hlt, UInt32.le_of_eq hversion.symm⟩
  | reset htrace => exact absurd htrace hundisturbed.2

end Orderly

/-- From any point of any run on, as long as old deltas are discarded and the
version is not reset: the versions of the deltas that are dispatched increase, each
of them exceeds the versions taken over before it, and the version kept does not
decrease. -/
theorem versions_increase_of_moves {fuel : Nat} {w₀ w t : World} {p p' : M Unit}
    (hstart : Steps (fun _ _ _ => True) (app fuel, w₀) (p, w))
    (hmoves : Moves (fun _ _ _ => True) World.Undisturbed (p, w) (p', t)) :
    (∃ new, t.trace = new ++ w.trace ∧ new.Pairwise Event.Follows) ∧
      w.shadowJsonVersionNum ≤ t.shadowJsonVersionNum := by
  have hwithin : p.Within (fun _ => True) World.Receives :=
    (coversSteps_receives.app fuel).of_steps hstart
  have horderly : p'.Within (fun _ => True) World.Receives ∧ ∃ new, Orderly w new t := by
    generalize hc : (p', t) = c at hmoves
    induction hmoves generalizing p' t with
    | refl => cases hc; exact ⟨hwithin, [], .refl w⟩
    | @tail b c _ hmove ih =>
        cases hc
        obtain ⟨q, s⟩ := b
        obtain ⟨hq, new, hnew⟩ := ih rfl
        obtain ⟨hp', hstep⟩ := hq.of_step hmove.step
        refine ⟨hp', ?_⟩
        cases hmove with
        | act hmay =>
            rcases hstep with hstep | heq
            · exact hnew.step hstep hmay
            · rw [← heq] at hnew
              exact ⟨new, hnew⟩
        | ask => exact ⟨new, hnew⟩
  obtain ⟨-, new, hnew⟩ := horderly
  exact ⟨⟨new, hnew.trace_eq, hnew.follows⟩, hnew.grown⟩

/-- Three deltas arrive, the last of which is not newer than the one before. -/
def threeDeltas : Script where
  traffic := [.done .success, .done .success,
    sampleMessage "$aws/things/t/shadow/update/delta" "\x7b\"version\":1,\"k\":1\x7d",
    sampleMessage "$aws/things/t/shadow/update/delta" "\x7b\"version\":2,\"k\":3\x7d",
    sampleMessage "$aws/things/t/shadow/update/delta" "\x7b\"version\":2,\"k\":4\x7d"]
  calls := [some (connectAs "t"), some (registerKey "k" none), some (.yield 0)]
  expired := []

def World.undisturbed (_ t : World) : Bool :=
  t.shadowDiscardOldDeltaFlag &&
    match t.trace with
    | .versionReset :: _ => false
    | _ => true

theorem World.undisturbed_of_eq_true (s t : World) (h : s.undisturbed t = true) :
    s.Undisturbed t := by
  obtain ⟨hflag, htrace⟩ := Bool.and_eq_true_iff.mp h
  refine ⟨hflag, ?_⟩
  intro heq
  rw [heq] at htrace
  cases htrace

end MqttClient.Shadow
