import MqttClient.Measurement.Payloads

/-! # Where the writes of a delta come from

The writes that are listed for a delta are those of the runs of `shadow_delta_callback`: it
copies the payload, and stores a string for every key that it records to have been found. The
callbacks of the registered keys make calls on another client, and none on the shadow layer.
-/

namespace MqttClient.Measurement

open Effect Program Shadow Text

/-- The callbacks make no calls on the shadow layer or its client. -/
def IsSilent (q : Shadow.Query) (_ : Shadow.World) (a : Shadow.Answer q) : Prop :=
  match q with
  | .application => a = none
  | _ => True

abbrev silentDiscipline : Discipline Shadow.World Shadow.Answer :=
  alone (fun _ _ => True) IsSilent (fun _ _ => True) fun _ _ => True

instance : silentDiscipline.Sequential := ⟨fun _ _ => trivial, fun _ _ => Iff.rfl⟩

/-- Since `s` these writes have been made into the buffers of registered keys, and nothing
has changed of what decides about them. -/
structure WritesSince (s : Shadow.World) (writes : List Write) (t : Shadow.World) : Prop where
  recorded : ∃ new, t.trace = new ++ s.trace ∧ new.reverse.flatMap storeWrites = writes
  rxBuf : t.shadowRxBuf = s.shadowRxBuf
  tokens : t.jsonTokenStruct = s.jsonTokenStruct
  table : t.tokenTable = s.tokenTable

section Runs

variable {s t : Shadow.World} {writes : List Write} {fuel : Nat}
  {call : Procedure → Shadow.M IotError} {m : MessageRef}

theorem writesSince_refl (s : Shadow.World) : WritesSince s [] s :=
  ⟨⟨[], rfl, rfl⟩, rfl, rfl, rfl⟩

theorem WritesSince.log (h : WritesSince s writes t) (e : Shadow.Event) :
    WritesSince s (writes ++ storeWrites e) (t.log e) := by
  obtain ⟨new, htrace, hnew⟩ := h.recorded
  refine ⟨⟨e :: new, ?_, ?_⟩, h.rxBuf, h.tokens, h.table⟩
  · rw [Shadow.World.trace_log, htrace, List.cons_append]
  · rw [List.reverse_cons, List.flatMap_append, hnew, List.flatMap_singleton]

/-- An event with which nothing is stored. -/
theorem WritesSince.log_of_nil (h : WritesSince s writes t) {e : Shadow.Event}
    (he : storeWrites e = []) : WritesSince s writes (t.log e) := by
  have hlogged := h.log e
  rwa [he, List.append_nil] at hlogged

/-- A callback that makes no calls does nothing. -/
theorem wp_callback (h : WritesSince s writes t) (name : CallbackName) :
    wp silentDiscipline (framedVoid (.deltaCallback name) (Shadow.application fuel call))
      (fun _ u => WritesSince s writes u) t := by
  apply wp_framedVoid
  intro _
  refine ⟨trivial, ?_⟩
  cases fuel with
  | zero => trivial
  | succ fuel =>
      refine wp_ask_solo.mpr ⟨trivial, ?_⟩
      rintro _ rfl _
      exact ⟨trivial, (h.log_of_nil rfl).log_of_nil rfl⟩

/-- One turn of the loop makes the writes of what is delivered to the key. -/
theorem wp_dispatchKey {tokenCount i : Nat} (h : WritesSince s writes t) :
    wp silentDiscipline (dispatchKey fuel call tokenCount i) (fun _ u =>
      WritesSince s (writes ++ (s.tokenTable[i]?.toList.flatMap
        (delivery s.rxDocument s.jsonTokenStruct tokenCount)).flatMap storeWrites) u) t := by
  unfold dispatchKey
  rw [wp_bind]
  apply wp_act_solo.mpr
  intro _
  refine ⟨trivial, ?_⟩
  -- document and tokens are those of the beginning
  have hdocument : t.rxDocument = s.rxDocument := by
    rw [Shadow.World.rxDocument, h.rxBuf, Shadow.World.rxDocument]
  dsimp only [id_eq]
  rw [wp_ret, h.table, hdocument, h.tokens]
  cases hkey : s.tokenTable[i]? with
  | none => simpa [wp_ret] using h
  | some key =>
      rw [Option.toList_some, List.flatMap_singleton]
      unfold delivery
      dsimp only
      cases isJsonKeyMatchingAndUpdateValue s.rxDocument s.jsonTokenStruct tokenCount key.key
          key.type with
      | none => simpa [wp_ret] using h
      | some v =>
          have hmatched := h.log (.matched key v.stored)
          dsimp only
          rw [wp_bind]
          apply wp_act_solo.mpr
          intro _
          refine ⟨trivial, ?_⟩
          cases hcb : key.cb with
          | none => simpa [wp_ret] using hmatched
          | some name =>
              rw [wp_ret]
              dsimp only
              rw [wp_bind]
              apply wp_act_solo.mpr
              intro _
              refine ⟨trivial, ?_⟩
              apply wp_mono _ (wp_callback (hmatched.log_of_nil rfl) name)
              intro _ u hu
              simpa [storeWrites] using hu

/-- The loop over the keys makes the writes of all that is delivered. -/
theorem wp_dispatchKeys {tokenCount : Nat} (htable : s.tokenTable.length ≤ maxJsonTokenExpected) :
    wp silentDiscipline
      (Program.forEach (dispatchKey fuel call tokenCount) (List.range maxJsonTokenExpected))
      (fun _ t => WritesSince s ((s.tokenTable.flatMap
        (delivery s.rxDocument s.jsonTokenStruct tokenCount)).flatMap storeWrites) t) s := by
  apply wp_mono _ (wp_forEach_range (I := fun i t => WritesSince s (((s.tokenTable.take i).flatMap
    (delivery s.rxDocument s.jsonTokenStruct tokenCount)).flatMap storeWrites) t) ?_ s ?_)
  · intro _ t ht
    rwa [List.take_of_length_le htable] at ht
  · intro i t _ ht
    apply wp_mono _ (wp_dispatchKey ht)
    intro _ u hu
    rwa [List.take_add_one, List.flatMap_append, List.flatMap_append]
  · exact writesSince_refl s

/-- The writes into the buffers of the registered keys that have been made since `w`. -/
def StoresSince (w : Shadow.World) (writes : List Write) (t : Shadow.World) : Prop :=
  ∃ new, t.trace = new ++ w.trace ∧ new.reverse.flatMap storeWrites = writes

/-- The writes have been made since `w`: those into the buffer for documents are what it holds, and
the others have been recorded. -/
def MakesWrites (w : Shadow.World) (writes : List Write) (t : Shadow.World) : Prop :=
  ∃ copied stored, writes = copied ++ stored ∧ StoresSince w stored t ∧
    t.shadowRxBuf = copied.foldl (fun mem write => mem.store write.offset write.bytes) w.shadowRxBuf

theorem wp_documentWrites {tokenCount : Nat} {received : Shadow.World}
    (htable : received.tokenTable.length ≤ maxJsonTokenExpected) :
    wp silentDiscipline
      (if received.isOldDelta tokenCount then return ()
        else Program.forEach (dispatchKey fuel call tokenCount) (List.range maxJsonTokenExpected))
      (fun _ t => StoresSince received (documentWrites received tokenCount) t ∧
        t.shadowRxBuf = received.shadowRxBuf) (received.withDeltaVersion tokenCount) := by
  unfold documentWrites Shadow.World.withDeltaVersion
  split
  next => exact ⟨⟨[], rfl, rfl⟩, rfl⟩
  next =>
    refine wp_mono ?_ (wp_dispatchKeys (by exact htable))
    rintro _ t ⟨⟨new, htrace, hnew⟩, hrxBuf, -, -⟩
    refine ⟨⟨new ++ [.dispatched (received.rxVersion tokenCount) (received.rxDocument.text 0)],
      ?_, ?_⟩, hrxBuf⟩
    · rw [htrace, List.append_assoc]
      rfl
    · rw [List.reverse_append, List.flatMap_append, hnew]
      rfl

theorem wp_shadowDeltaBody (htable : s.tokenTable.length ≤ maxJsonTokenExpected) :
    wp silentDiscipline (shadowDeltaBody fuel call m)
      (fun _ t => MakesWrites s (deltaWrites s m) t) s := by
  unfold shadowDeltaBody
  rw [wp_bind]
  apply wp_receiveDocument
  · intro hlong
    exact ⟨[], [], if_pos hlong, ⟨[], rfl, rfl⟩, rfl⟩
  · trivial
  · trivial
  intro hfits
  have hcopied : (s.withPayload m).withRxTokens.shadowRxBuf =
      s.shadowRxBuf.store 0 (payloadWrite s m).bytes := by
    rw [payloadWrite, Memory.store_append, Memory.length_load, Nat.zero_add]
    rfl
  unfold deltaWrites
  rw [if_neg (Nat.not_lt.mpr hfits)]
  cases (s.withPayload m).rxTokenCount with
  | none => exact ⟨[payloadWrite s m], [], rfl, ⟨[], rfl, rfl⟩, hcopied⟩
  | some tokenCount =>
      dsimp only
      rw [wp_bind]
      apply wp_act_solo.mpr
      intro _
      refine ⟨trivial, ?_⟩
      have hreceived : (s.withPayload m).withRxTokens.tokenTable.length ≤ maxJsonTokenExpected :=
        htable
      apply wp_mono _ (wp_documentWrites hreceived)
      rintro _ t ⟨⟨new, htrace, hnew⟩, hrxBuf⟩
      exact ⟨[payloadWrite s m], _, rfl, ⟨new, htrace, hnew⟩, hrxBuf.trans hcopied⟩

/-- A run of `shadow_delta_callback` makes the writes that are listed for the delta: the strings
are those of the keys that it records to have been found, and the payload is what it leaves in
the buffer for documents. -/
theorem makesWrites_deltaWrites {w : Shadow.World}
    (htable : w.tokenTable.length ≤ maxJsonTokenExpected)
    (h : Returns IsSilent (shadowDeltaCallback fuel call m) w () t) :
    MakesWrites w (deltaWrites w m) t := by
  have hwp : wp silentDiscipline (shadowDeltaCallback fuel call m)
      (fun _ t => MakesWrites w (deltaWrites w m) t) w := by
    apply wp_framedVoid
    intro _
    refine ⟨trivial, ?_⟩
    have hentered : (w.log (.enter (.delta m))).tokenTable.length ≤ maxJsonTokenExpected := htable
    apply wp_mono _ (wp_shadowDeltaBody hentered)
    rintro _ u ⟨copied, stored, hwrites, ⟨new, htrace, hnew⟩, hrxBuf⟩ _
    refine ⟨trivial, copied, stored, hwrites,
      ⟨.leave (.delta m) .success :: (new ++ [.enter (.delta m)]), ?_, ?_⟩, hrxBuf⟩
    · rw [Shadow.World.trace_log, htrace, List.cons_append, List.append_assoc]
      rfl
    · rw [List.reverse_cons, List.reverse_append, List.flatMap_append, List.flatMap_append, hnew]
      exact List.append_nil _
  have hreturned := wp_returns hwp h
  exact hreturned

end Runs

end MqttClient.Measurement
