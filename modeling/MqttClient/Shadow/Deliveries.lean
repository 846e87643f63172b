import MqttClient.Shadow.Script
import MqttClient.Shadow.Disciplines

/-! # What a delta delivers

A delta stores values in the structs of the registered keys and calls their
callbacks. While it does, the document lies in a buffer and an array of tokens that
all documents share.
-/

namespace MqttClient.Shadow

open Effect Program

/-! ## The deliveries of a document -/

/-- What a document delivers to a registered key. -/
def delivery (json : Document) (tokens : JsonTokens) (tokenCount : Nat) (s : JsonStruct) :
    List Event :=
  match isJsonKeyMatchingAndUpdateValue json tokens tokenCount s.key s.type with
  | none => []
  | some v => .matched s v.stored ::
      match s.cb with
      | none => []
      | some _ =>
          [.deltaCallback s (json.bytes.load v.dataPosition v.dataLength.toNat) v.dataLength]

/-- What a document delivers, in this order. -/
def deliveriesOf (document : List UInt8) (registry : List JsonStruct) : List Event :=
  let json := Document.ofText document
  let (tokenCount, tokens) :=
    isJsonValidAndParse json (List.replicate maxJsonTokenExpected .blank)
  match tokenCount with
  | none => []
  | some tokenCount => registry.flatMap (delivery json tokens tokenCount)

/-- The document of the newest dispatch and what it has delivered so far. A delta that
is looked at is not dispatched yet. -/
def Trace.dispatch : Trace → Option (List UInt8 × List Event)
  | [] => none
  | .dispatched _ document :: _ => some (document, [])
  | .enter (.delta _) :: _ => none
  | .matched s stored :: t => (dispatch t).map fun d => (d.1, d.2 ++ [.matched s stored])
  | .deltaCallback s value n :: t =>
      (dispatch t).map fun d => (d.1, d.2 ++ [.deltaCallback s value n])
  | _ :: t => dispatch t

/-! ## What is asked of runs -/

namespace World

/-- A callback of a delta is running. -/
def IsDelivering (w : World) : Prop := ∃ name, Frame.deltaCallback name ∈ w.stack

/-- A delta is being handled. -/
def HasDelta (w : World) : Prop := ∃ m, Frame.delta m ∈ w.stack

/-- No registered key is found in the last token of the document. -/
def KeysHaveValues (w : World) (m : MessageRef) : Prop :=
  ∀ tokenCount, (w.withPayload m).rxTokenCount = some tokenCount → ∀ s ∈ w.tokenTable, ∀ i,
    keyIndex (w.withPayload m).rxDocument (w.withPayload m).withRxTokens.jsonTokenStruct tokenCount
      s.key = some i → i + 1 < tokenCount

end World

/-- Calls that overwrite the document or its tokens, or change which keys are registered. -/
def Frame.disturbs : Frame → Bool
  | .action .. | .ackStatus _ | .delta _ | .call .init | .call (.registerDelta _) => true
  | _ => false

namespace World

/-- The callbacks of a delta leave the document alone, and its keys have values. -/
def LeavesAlone (s t : World) : Prop :=
  (∀ f, t.trace = .enter f :: s.trace → f.disturbs → ¬ s.IsDelivering) ∧
    ∀ m, t.trace = .enter (.delta m) :: s.trace → s.KeysHaveValues m

/-- What has been delivered is the beginning of what the document delivers. -/
def IsOnTheWay (w : World) : Prop :=
  w.HasDelta → ∀ document d, w.trace.dispatch = some (document, d) →
    d <+: deliveriesOf document w.tokenTable

/-- The step delivers what the document delivers, and when the delta has been
handled all of it has been delivered. -/
structure Delivers (s t : World) : Prop where
  isOnTheWay : t.IsOnTheWay
  complete : ∀ m rc, t.trace = .leave (.delta m) rc :: s.trace → ∀ document d,
    s.trace.dispatch = some (document, d) → d = deliveriesOf document s.tokenTable

/-- What holds outside the handling of a delta itself. -/
structure IsOutside (w : World) : Prop where
  tokens_length : w.jsonTokenStruct.length = maxJsonTokenExpected
  table_length : w.tokenTable.length ≤ maxJsonTokenExpected
  nested : w.HasDelta → w.IsDelivering
  isOnTheWay : w.IsOnTheWay

/-- Nothing has changed that matters to a delta. -/
structure SameDelivery (s t : World) : Prop where
  rxBuf : t.shadowRxBuf = s.shadowRxBuf
  tokens : t.jsonTokenStruct = s.jsonTokenStruct
  table : t.tokenTable = s.tokenTable
  dispatch : t.trace.dispatch = s.trace.dispatch

/-- The calls in progress are the same, and the delta whose callback runs is left alone. -/
def Returns (s t : World) : Prop := t.stack = s.stack ∧ (s.IsDelivering → s.SameDelivery t)

theorem SameDelivery.refl (s : World) : s.SameDelivery s := ⟨rfl, rfl, rfl, rfl⟩

theorem SameDelivery.trans {s t u : World} (h : s.SameDelivery t) (h' : t.SameDelivery u) :
    s.SameDelivery u :=
  ⟨h'.rxBuf.trans h.rxBuf, h'.tokens.trans h.tokens, h'.table.trans h.table,
    h'.dispatch.trans h.dispatch⟩

theorem Returns.refl (s : World) : s.Returns s := ⟨rfl, fun _ => .refl s⟩

/-- Whether a delta is being delivered is read off the calls in progress. -/
theorem isDelivering_congr {s t : World} (hstack : t.stack = s.stack) :
    t.IsDelivering ↔ s.IsDelivering := by
  rw [IsDelivering, hstack, IsDelivering]

/-- So is whether one is being handled. -/
theorem hasDelta_congr {s t : World} (hstack : t.stack = s.stack) : t.HasDelta ↔ s.HasDelta := by
  rw [HasDelta, hstack, HasDelta]

theorem Returns.trans {s t u : World} (h : s.Returns t) (h' : t.Returns u) : s.Returns u := by
  refine ⟨h'.1.trans h.1, ?_⟩
  intro hdelivering
  exact (h.2 hdelivering).trans (h'.2 ((isDelivering_congr h.1).mpr hdelivering))

end World

/-- The runs whose steps leave the deltas alone. -/
abbrev deliveryDiscipline : Discipline World Answer :=
  alone (fun _ _ => True) (fun _ _ _ => True) World.LeavesAlone World.Delivers

/-! ## Steps that do not deliver -/

/-- Frames other than those of a delta and of its callbacks. -/
def Frame.IsOrdinary : Frame → Prop
  | .delta _ | .deltaCallback _ => False
  | _ => True

/-- Events that say nothing about deltas. -/
def Event.IsBeside : Event → Prop
  | .unsubscribe _ | .published .. | .answered .. => True
  | _ => False

/-- Parts that have nothing to do with the events of a delta. -/
def Part.IsBeside : Part → Prop
  | .event e => e.IsBeside
  | _ => True

/-- Parts that also leave the document and the registry alone. -/
def Part.Spares : Part → Prop
  | .document | .registry => False
  | part => part.IsBeside

namespace World

variable {s t : World} {f : Frame}

/-- A frame of another kind does not show among those of one kind. -/
theorem mem_stack_enter {g : Frame} (hne : f ≠ g) :
    g ∈ (s.log (.enter f)).stack ↔ g ∈ s.stack := by
  rw [stack_log_enter, List.mem_cons]
  exact or_iff_right hne.symm

/-- An ordinary frame does not begin a delivery. -/
theorem isDelivering_enter (hf : f.IsOrdinary) :
    (s.log (.enter f)).IsDelivering ↔ s.IsDelivering := by
  apply exists_congr
  intro name
  apply mem_stack_enter
  rintro rfl
  exact hf

theorem hasDelta_enter (hf : f.IsOrdinary) : (s.log (.enter f)).HasDelta ↔ s.HasDelta := by
  apply exists_congr
  intro m
  apply mem_stack_enter
  rintro rfl
  exact hf

/-- Nor does it change one. -/
theorem sameDelivery_enter (hf : f.IsOrdinary) : s.SameDelivery (s.log (.enter f)) := by
  refine ⟨rfl, rfl, rfl, ?_⟩
  cases f <;> first | rfl | exact absurd hf id

/-- How far a delivery has got depends on the registry and on what is on record. -/
theorem isOnTheWay_congr (hdelta : t.HasDelta → s.HasDelta) (htable : t.tokenTable = s.tokenTable)
    (hdispatch : t.trace.dispatch = s.trace.dispatch) (hs : s.IsOnTheWay) : t.IsOnTheWay := by
  intro hhas document d hd
  rw [htable]
  exact hs (hdelta hhas) document d (hdispatch ▸ hd)

/-- A world outside of deliveries stays so along steps that keep the calls in progress. -/
theorem IsOutside.congr (hs : s.IsOutside) (hstack : t.stack = s.stack) (h : s.SameDelivery t) :
    t.IsOutside where
  tokens_length := by rw [h.tokens, hs.tokens_length]
  table_length := by rw [h.table]; exact hs.table_length
  nested := by
    rw [hasDelta_congr hstack, isDelivering_congr hstack]
    exact hs.nested
  isOnTheWay := isOnTheWay_congr (hasDelta_congr hstack).mp h.table h.dispatch hs.isOnTheWay

/-- It stays so in an ordinary frame. -/
theorem IsOutside.enter (hs : s.IsOutside) (hf : f.IsOrdinary) : (s.log (.enter f)).IsOutside where
  tokens_length := hs.tokens_length
  table_length := hs.table_length
  nested := by
    rw [hasDelta_enter hf, isDelivering_enter hf]
    exact hs.nested
  isOnTheWay := isOnTheWay_congr (hasDelta_enter hf).mp rfl (sameDelivery_enter hf).dispatch
    hs.isOnTheWay

/-- Behind a call the world is that before the call as far as deltas go. -/
theorem IsOutside.leave (hs : s.IsOutside) (hf : f.IsOrdinary) (ht : t.IsOutside)
    (hstack : t.stack = (s.log (.enter f)).stack) (rc : IotError) :
    (t.log (.leave f rc)).IsOutside := by
  have htail : (t.log (.leave f rc)).stack = s.stack := by
    rw [stack_log_leave, hstack]
    rfl
  refine ⟨ht.tokens_length, ht.table_length, ?_, ?_⟩
  · rw [hasDelta_congr htail, isDelivering_congr htail]
    exact hs.nested
  · apply isOnTheWay_congr (s := t) (t := t.log (.leave f rc)) _ rfl rfl ht.isOnTheWay
    rw [hasDelta_congr htail, hasDelta_congr hstack, hasDelta_enter hf]
    exact id

/-- A step that does not end the handling of a delta. -/
theorem IsOnTheWay.delivers (ht : t.IsOnTheWay)
    (hleave : ∀ m rc, t.trace ≠ .leave (.delta m) rc :: s.trace) : s.Delivers t :=
  ⟨ht, fun m rc htrace => absurd htrace (hleave m rc)⟩

/-- Outside of deliveries, nothing is due but for a callback for deltas that is left. -/
theorem delivers_of_outside (ht : t.IsOutside)
    (hleave : ∀ m rc, t.trace ≠ .leave (.delta m) rc :: s.trace) : s.Delivers t :=
  ht.isOnTheWay.delivers hleave

end World

section Instances

variable {s t : World} {part : Part}

/-- A step beside the callbacks neither enters nor leaves a frame. -/
theorem stack_of_changesTo (hpart : part.IsBeside) (h : s.ChangesTo part t) :
    t.stack = s.stack := by
  cases part with
  | event e =>
      rw [h]
      cases e <;> first | rfl | exact absurd hpart id
  | version => rw [h]; rfl
  | document | registry => rw [h.1]; rfl
  | _ => rw [h]; rfl

/-- A step that spares the registry and the record changes no delivery. -/
theorem sameDelivery_of_changesTo (hpart : part.Spares) (h : s.ChangesTo part t) :
    s.SameDelivery t := by
  cases part with
  | event e =>
      rw [h]
      cases e <;> first | exact ⟨rfl, rfl, rfl, rfl⟩ | exact absurd hpart id
  | version => rw [h]; exact ⟨rfl, rfl, rfl, rfl⟩
  | document | registry => exact absurd hpart id
  | _ => rw [h]; exact ⟨rfl, rfl, rfl, rfl⟩

/-- A step beside the callbacks leaves no frame. -/
theorem not_leave_of_changesTo (hpart : part.IsBeside) (h : s.ChangesTo part t) (f : Frame)
    (rc : IotError) : t.trace ≠ .leave f rc :: s.trace := by
  intro htrace
  cases part with
  | event e =>
      rw [h] at htrace
      cases htrace
      exact hpart
  | version => rw [h] at htrace; cases htrace
  | document | registry =>
      rw [h.1] at htrace
      exact List.ne_cons_self htrace
  | _ =>
      rw [h] at htrace
      exact List.ne_cons_self htrace

/-- What spares deliveries is beside them. -/
theorem isBeside_of_spares (h : part.Spares) : part.IsBeside := by
  cases part <;> first | exact h | trivial

end Instances

section Walks

variable {s t : World} {part : Part}

/-- Programs that leave the deltas alone, also one whose callback is running. -/
abbrev Spares {α : Type} (p : M α) : Prop :=
  Preserves deliveryDiscipline World.IsOutside World.Returns p

/-- What holds where no callback of a delta is running. -/
def World.IsQuiet (w : World) : Prop := w.IsOutside ∧ ¬ w.IsDelivering

/-- Programs that run where no callback of a delta is running. -/
abbrev Quiet {α : Type} (p : M α) : Prop :=
  Preserves deliveryDiscipline World.IsQuiet (fun s t => t.stack = s.stack) p

/-- No delta is handled while all is quiet. -/
theorem World.IsQuiet.not_hasDelta {w : World} (h : w.IsQuiet) : ¬ w.HasDelta :=
  fun hdelta => h.2 (h.1.nested hdelta)

/-- A program that spares deliveries is quiet. -/
theorem quiet_of_spares {α : Type} {p : M α} (h : Spares p) : Quiet p := by
  intro s hs
  apply wp_mono _ (h s hs.1)
  rintro _ t ⟨ht, hstack, -⟩
  exact ⟨⟨ht, (World.isDelivering_congr hstack).not.mpr hs.2⟩, hstack⟩

/-- Where it was quiet, a quiet program leaves it outside of deliveries. -/
theorem isOutside_of_quiet (hs : s.IsQuiet) (hstack : t.stack = s.stack)
    (htokens : t.jsonTokenStruct.length = s.jsonTokenStruct.length)
    (htable : s.tokenTable.length ≤ maxJsonTokenExpected →
      t.tokenTable.length ≤ maxJsonTokenExpected) : t.IsOutside where
  tokens_length := htokens.trans hs.1.tokens_length
  table_length := htable hs.1.table_length
  nested := fun hdelta => absurd ((World.hasDelta_congr hstack).mp hdelta) hs.not_hasDelta
  isOnTheWay := fun hdelta => absurd ((World.hasDelta_congr hstack).mp hdelta) hs.not_hasDelta

/-- The tokens stay as many as they are, and the registry within its bound. -/
theorem length_of_changesTo (h : s.ChangesTo part t) :
    t.jsonTokenStruct.length = s.jsonTokenStruct.length ∧
      (s.tokenTable.length ≤ maxJsonTokenExpected →
        t.tokenTable.length ≤ maxJsonTokenExpected) := by
  cases part with
  | event e | version => rw [h]; exact ⟨rfl, id⟩
  | document => exact ⟨h.2, by rw [h.1]; exact id⟩
  | registry => exact ⟨by rw [h.1], h.2⟩
  | _ => rw [h]; exact ⟨rfl, id⟩

/-- Programs made of steps that spare deliveries spare them. -/
theorem walks_spares : Walks Frame.IsOrdinary Part.Spares fun _ p => Spares p := by
  apply walks_preserves World.Returns.refl fun _ _ _ h h' => h.trans h'
  · exact fun _ _ _ => trivial
  · exact fun _ _ => trivial
  · exact fun s hs => World.delivers_of_outside hs fun _ _ => List.ne_cons_self
  · intro part s t hpart hchange hs _
    have hbeside := isBeside_of_spares hpart
    have hstack := stack_of_changesTo hbeside hchange
    have hsame := sameDelivery_of_changesTo hpart hchange
    have ht := hs.congr hstack hsame
    exact ⟨World.delivers_of_outside ht fun m rc => not_leave_of_changesTo hbeside hchange _ rc,
      ht, hstack, fun _ => hsame⟩
  · intro f s hf hs _
    exact ⟨World.delivers_of_outside (hs.enter hf) nofun, hs.enter hf⟩
  · intro f s t rc hf hs _ ht hreturns _
    have hleft := hs.leave hf ht hreturns.1 rc
    refine ⟨World.delivers_of_outside hleft ?_, hleft, ?_, ?_⟩
    · intro m rc' htrace
      cases htrace
      exact hf
    · rw [World.stack_log_leave, hreturns.1]
      rfl
    · intro hdelivering
      have hsame := hreturns.2 ((World.isDelivering_enter hf).mpr hdelivering)
      exact (World.sameDelivery_enter hf).trans
        ⟨hsame.rxBuf, hsame.tokens, hsame.table, hsame.dispatch⟩

/-- Programs made of steps beside deliveries are quiet. -/
theorem walks_quiet : Walks Frame.IsOrdinary Part.IsBeside fun _ p => Quiet p := by
  apply walks_preserves (R := fun s t => t.stack = s.stack) (fun _ => rfl)
    fun _ _ _ h h' => h'.trans h
  · exact fun _ _ _ => trivial
  · exact fun _ _ => trivial
  · exact fun s hs => World.delivers_of_outside hs.1 fun _ _ => List.ne_cons_self
  · intro part s t hpart hchange hs _
    have hstack := stack_of_changesTo hpart hchange
    obtain ⟨htokens, htable⟩ := length_of_changesTo hchange
    have ht := isOutside_of_quiet hs hstack htokens htable
    exact ⟨World.delivers_of_outside ht fun m rc => not_leave_of_changesTo hpart hchange _ rc,
      ⟨ht, (World.isDelivering_congr hstack).not.mpr hs.2⟩, hstack⟩
  · intro f s hf hs _
    exact ⟨World.delivers_of_outside (hs.1.enter hf) nofun, hs.1.enter hf,
      (World.isDelivering_enter hf).not.mpr hs.2⟩
  · intro f s t rc hf hs _ ht hstack _
    have hleft := hs.1.leave hf ht.1 hstack rc
    have htail : (t.log (.leave f rc)).stack = s.stack := by
      rw [World.stack_log_leave, hstack]
      rfl
    refine ⟨World.delivers_of_outside hleft ?_, ⟨hleft, ?_⟩, htail⟩
    · intro m rc' htrace
      cases htrace
      exact hf
    · exact (World.isDelivering_congr htail).not.mpr hs.2

/-- A step that changes nothing that matters. -/
theorem spares_modify {f : World → World} (hstack : ∀ s, (f s).stack = s.stack)
    (hsame : ∀ s : World, s.SameDelivery (f s))
    (hleave : ∀ s f' rc, (f s).trace ≠ .leave f' rc :: s.trace) : Spares (Program.modify f) := by
  intro s hs
  have ht := hs.congr (hstack s) (hsame s)
  apply wp_act_solo.mpr
  intro _
  exact ⟨World.delivers_of_outside ht fun _ rc => hleave s _ rc, ht, hstack s, fun _ => hsame s⟩

/-- Putting a record to use spares deliveries. -/
theorem spares_awaited (i : AckIndex) (p : Target) (token : List UInt8) (callback : CallbackName)
    (context : Nat) (isSticky : Bool) : Spares (Program.modify fun w =>
      (w.addToAckWaitList i p token callback context).log (.awaited i p isSticky)) := by
  apply spares_modify
  · exact fun _ => rfl
  · exact fun _ => ⟨rfl, rfl, rfl, rfl⟩
  · intro s f rc htrace
    rw [World.trace_log] at htrace
    cases (List.cons.inj htrace).1

/-- So do the operations on the tables. -/
theorem tableWalks_spares : TableWalks Frame.IsOrdinary Part.Spares fun _ p => Spares p :=
  { walks_spares with
    formerLocal := trivial
    handlers := trivial
    subscriptions := trivial
    acks := trivial
    unsubscribe := fun _ => trivial
    published := fun _ _ => trivial
    answered := fun _ _ _ => trivial
    awaited := spares_awaited
    subscribing := fun _ _ _ => trivial
    completing := fun _ _ => trivial
    releasing := fun _ => trivial
    callback := fun _ => trivial }

/-- They are quiet as well. -/
theorem tableWalks_quiet : TableWalks Frame.IsOrdinary Part.IsBeside fun _ p => Quiet p :=
  { walks_quiet with
    formerLocal := trivial
    handlers := trivial
    subscriptions := trivial
    acks := trivial
    unsubscribe := fun _ => trivial
    published := fun _ _ => trivial
    answered := fun _ _ _ => trivial
    awaited := fun i p token callback context isSticky =>
      quiet_of_spares (spares_awaited i p token callback context isSticky)
    subscribing := fun _ _ _ => trivial
    completing := fun _ _ => trivial
    releasing := fun _ => trivial
    callback := fun _ => trivial }

variable {f : Frame}

/-- It stays quiet in an ordinary frame. -/
theorem World.IsQuiet.enter (hs : s.IsQuiet) (hf : f.IsOrdinary) : (s.log (.enter f)).IsQuiet :=
  ⟨hs.1.enter hf, (World.isDelivering_enter hf).not.mpr hs.2⟩

/-- What is behind a frame that disturbs deltas runs where no callback of one runs. -/
theorem leave_of_quiet (hf : f.IsOrdinary) (hs : s.IsOutside) (hquiet : ¬ s.IsDelivering)
    (ht : t.IsQuiet) (hstack : t.stack = f :: s.stack) (rc : IotError) :
    t.Delivers (t.log (.leave f rc)) ∧ (t.log (.leave f rc)).IsOutside ∧
      s.Returns (t.log (.leave f rc)) := by
  have hleft := hs.leave hf ht.1 hstack rc
  refine ⟨World.delivers_of_outside hleft ?_, hleft, ?_, fun h => absurd h hquiet⟩
  · intro m rc' htrace
    cases htrace
    exact hf
  · rw [World.stack_log_leave, hstack]
    rfl

/-- A frame that counts as a disturbance spares deliveries, if its body is quiet. -/
theorem spares_framed {body : M IotError} (hdisturbs : f.disturbs) (hf : f.IsOrdinary)
    (hbody : Quiet body) : Spares (framed f body) := by
  intro s hs
  apply wp_framed
  intro hmay
  have hquiet : ¬ s.IsDelivering := hmay.1 f rfl hdisturbs
  have hentered : (s.log (.enter f)).IsQuiet := World.IsQuiet.enter ⟨hs, hquiet⟩ hf
  refine ⟨World.delivers_of_outside hentered.1 nofun, wp_mono ?_ (hbody _ hentered)⟩
  rintro rc t ⟨ht, hstack⟩ _
  exact leave_of_quiet hf hs hquiet ht hstack rc

/-- A request overwrites the tokens in the step in which it is entered. -/
theorem spares_requested {args : ActionArgs} {doc : List UInt8}
    {body : Option (List UInt8) → M IotError} (hbody : ∀ token, Quiet (body token)) :
    Spares (requested args doc body) := by
  intro s hs
  unfold requested
  rw [wp_bind]
  apply wp_act_solo.mpr
  intro hmay
  have hquiet : ¬ s.IsDelivering := hmay.1 _ rfl rfl
  have htokens : World.IsQuiet { s with
      jsonTokenStruct := (extractClientToken (.ofText doc) s.jsonTokenStruct).2 } :=
    ⟨isOutside_of_quiet ⟨hs, hquiet⟩ rfl (length_extractClientToken _ _) id, hquiet⟩
  have hentered : (s.withRequest args doc).IsQuiet := htokens.enter trivial
  refine ⟨World.delivers_of_outside hentered.1 nofun, ?_⟩
  rw [wp_ret, wp_bind]
  apply wp_mono _ (hbody _ _ hentered)
  rintro rc t ⟨ht, hstack⟩
  apply wp_act_solo.mpr
  intro _
  have hordinary (token : Option (List UInt8)) : (Frame.action args token).IsOrdinary := trivial
  exact leave_of_quiet (hordinary _) hs hquiet ht hstack rc

end Walks

/-! ## The dispatch of a delta -/

section Dispatch

variable {json json' : Document} {js : List UInt8} {tokens tokens' : JsonTokens}
  {tokenCount : Nat}

/-- What is delivered to a key depends on the text alone. -/
theorem delivery_congr (h : json.Holds js) (h' : json'.Holds js)
    (htokens : SameTokens js tokenCount tokens tokens') (s : JsonStruct)
    (hvalue : ∀ i, keyIndex json' tokens' tokenCount s.key = some i → i + 1 < tokenCount) :
    delivery json tokens tokenCount s = delivery json' tokens' tokenCount s := by
  unfold delivery
  rw [isJsonKeyMatching_congr h h' htokens s.type hvalue]
  cases hmatch : isJsonKeyMatchingAndUpdateValue json' tokens' tokenCount s.key s.type with
  | none => rfl
  | some v =>
      rw [isJsonKeyMatching_eq] at hmatch
      obtain ⟨i, hi, rfl⟩ := Option.map_eq_some_iff.mp hmatch
      have htok := htokens.within _ (hvalue i hi)
      dsimp only
      rw [load_valueOf_congr h' h htok]

/-- What a document delivers, as it is read from the buffer. -/
theorem deliveriesOf_eq {w : World} {m : MessageRef} (hkeys : w.KeysHaveValues m)
    (htokens : w.jsonTokenStruct.length = maxJsonTokenExpected)
    (hlength : m.payloadLen ≤ shadowMaxSizeOfRxBuffer)
    (hcount : (w.withPayload m).rxTokenCount = some tokenCount) :
    deliveriesOf ((w.withPayload m).rxDocument.text 0) w.tokenTable =
      w.tokenTable.flatMap (delivery (w.withPayload m).rxDocument
        (w.withPayload m).withRxTokens.jsonTokenStruct tokenCount) := by
  have hdoc := World.holds_withPayload w hlength
  have hpure := Document.holds_ofText hdoc.nonzero
  have hroom : (List.replicate maxJsonTokenExpected JsmnTok.blank).length =
      (w.withPayload m).jsonTokenStruct.length := by
    rw [List.length_replicate]
    exact htokens.symm
  obtain ⟨hpureCount, hsame⟩ :=
    sameTokens_of_isJsonValidAndParse hdoc hpure hroom.symm hcount
  cases hparse : isJsonValidAndParse (.ofText ((w.withPayload m).rxDocument.text 0))
      (List.replicate maxJsonTokenExpected .blank) with
  | mk count tokens =>
      rw [hparse] at hpureCount hsame
      dsimp only at hpureCount hsame
      subst hpureCount
      simp only [deliveriesOf, hparse]
      apply List.flatMap_congr
      intro s hs
      exact delivery_congr hpure hdoc hsame.symm s (hkeys tokenCount hcount s hs)

end Dispatch

/-! ## The message callbacks -/

section Callbacks

variable {fuel : Nat} {call : Procedure → M IotError} {s t : World} {m : MessageRef}

/-- The version of a response is none of a delta's. -/
theorem spares_withResponseVersion (m : MessageRef) (tokenCount : Nat) :
    Spares (Program.modify (·.withResponseVersion m tokenCount)) := by
  apply spares_modify
  · intro s
    unfold World.withResponseVersion
    split <;> rfl
  · intro s
    unfold World.withResponseVersion
    split <;> exact ⟨rfl, rfl, rfl, rfl⟩
  · intro s f rc htrace
    unfold World.withResponseVersion at htrace
    split at htrace
    · exact List.ne_cons_self htrace
    · cases htrace

/-- So does one around a body without a result. -/
theorem spares_framedVoid {f : Frame} {body : M Unit} (hdisturbs : f.disturbs) (hf : f.IsOrdinary)
    (hbody : Quiet body) : Spares (framedVoid f body) := by
  apply walks_spares.bind
  · apply spares_framed hdisturbs hf
    exact walks_quiet.bind hbody fun _ => walks_quiet.ret _
  intro _
  exact walks_spares.ret _

/-- Handling a response spares deliveries. -/
theorem spares_ackStatusCallback (hcall : ∀ proc, Spares (call proc)) (m : MessageRef) :
    Spares (ackStatusCallback fuel call m) := by
  apply spares_framedVoid (f := .ackStatus m) rfl trivial
  apply tableWalks_quiet.ackStatusBody trivial
  · exact tableWalks_quiet.answersRecord (fun proc => quiet_of_spares (hcall proc)) m
  · exact fun tokenCount => quiet_of_spares (spares_withResponseVersion m tokenCount)

/-- The delta that began in `s` is being handled, and `d` has been delivered of it. -/
structure World.Dispatching (s : World) (m : MessageRef) (document : List UInt8) (d : List Event)
    (t : World) : Prop where
  stack_eq : t.stack = .delta m :: s.stack
  tokens_length : t.jsonTokenStruct.length = s.jsonTokenStruct.length
  table_eq : t.tokenTable = s.tokenTable
  dispatch_eq : t.trace.dispatch = some (document, d)

/-- The delta that began in `s` has been handled. -/
structure World.Handled (s : World) (m : MessageRef) (t : World) : Prop where
  stack_eq : t.stack = .delta m :: s.stack
  tokens_length : t.jsonTokenStruct.length = s.jsonTokenStruct.length
  table_eq : t.tokenTable = s.tokenTable
  complete : ∀ document d, t.trace.dispatch = some (document, d) →
    d = deliveriesOf document s.tokenTable

/-- Behind a delta the world is that before it. -/
theorem World.Handled.leave (h : s.Handled m t) (hs : s.IsQuiet) (rc : IotError) :
    t.Delivers (t.log (.leave (.delta m) rc)) ∧ (t.log (.leave (.delta m) rc)).IsOutside ∧
      s.Returns (t.log (.leave (.delta m) rc)) := by
  have hstack : (t.log (.leave (.delta m) rc)).stack = s.stack := by
    rw [World.stack_log_leave, h.stack_eq]
    rfl
  have hleft : (t.log (.leave (.delta m) rc)).IsOutside :=
    isOutside_of_quiet hs hstack h.tokens_length fun hlength => h.table_eq ▸ hlength
  refine ⟨⟨hleft.isOnTheWay, ?_⟩, hleft, hstack, fun hdelivering => absurd hdelivering hs.2⟩
  intro _ _ _ document d hd
  rw [h.table_eq]
  exact h.complete document d hd

variable {document : List UInt8} {d : List Event}

namespace World.Dispatching

/-- What has been delivered so far is the beginning of what is due. -/
theorem isOnTheWay (h : s.Dispatching m document d t)
    (hd : d <+: deliveriesOf document s.tokenTable) :
    t.IsOnTheWay := by
  intro _ document' d' hdispatch
  rw [h.dispatch_eq] at hdispatch
  cases hdispatch
  rw [h.table_eq]
  exact hd

/-- Finding a key delivers its match. -/
theorem matched (h : s.Dispatching m document d t) (key : JsonStruct)
    (stored : Option key.type.Data) :
    s.Dispatching m document (d ++ [.matched key stored]) (t.log (.matched key stored)) where
  stack_eq := h.stack_eq
  tokens_length := h.tokens_length
  table_eq := h.table_eq
  dispatch_eq := by
    change (Trace.dispatch t.trace).map _ = _
    rw [h.dispatch_eq]
    rfl

/-- Calling it back delivers its value. -/
theorem deltaCallback (h : s.Dispatching m document d t) (key : JsonStruct) (value : List UInt8)
    (n : UInt32) :
    s.Dispatching m document (d ++ [.deltaCallback key value n])
      (t.log (.deltaCallback key value n)) where
  stack_eq := h.stack_eq
  tokens_length := h.tokens_length
  table_eq := h.table_eq
  dispatch_eq := by
    change (Trace.dispatch t.trace).map _ = _
    rw [h.dispatch_eq]
    rfl

/-- A callback may do anything that leaves the document alone. -/
theorem wp_callback (hcall : ∀ proc, Spares (call proc)) (hs : s.IsQuiet)
    (h : s.Dispatching m document d t) (hd : d <+: deliveriesOf document s.tokenTable)
    (name : CallbackName) :
    wp deliveryDiscipline (framedVoid (.deltaCallback name) (application fuel call))
      (fun _ u => s.Dispatching m document d u ∧ u.shadowRxBuf = t.shadowRxBuf ∧
        u.jsonTokenStruct = t.jsonTokenStruct) t := by
  have hentered : (t.log (.enter (.deltaCallback name))).IsOutside := by
    refine ⟨h.tokens_length.trans hs.1.tokens_length, h.table_eq ▸ hs.1.table_length, ?_, ?_⟩
    · intro _
      exact ⟨name, List.mem_cons_self⟩
    · intro _
      exact h.isOnTheWay hd ⟨m, h.stack_eq ▸ List.mem_cons_self⟩
  have hdelivering : (t.log (.enter (.deltaCallback name))).IsDelivering :=
    ⟨name, List.mem_cons_self⟩
  have happlication : Spares (application fuel call) :=
    walks_spares.application fun c => hcall (.call c)
  have hbody := happlication _ hentered
  apply wp_framedVoid
  intro _
  refine ⟨World.delivers_of_outside hentered nofun, ?_⟩
  apply wp_mono _ hbody
  rintro _ u ⟨hu, hstack, hreturns⟩ _
  have hsame := hreturns hdelivering
  have hleft : s.Dispatching m document d (u.log (.leave (.deltaCallback name) .success)) := by
    refine ⟨?_, ?_, hsame.table.trans h.table_eq, hsame.dispatch.trans h.dispatch_eq⟩
    · rw [stack_log_leave, hstack, stack_log_enter, List.tail_cons]
      exact h.stack_eq
    · exact (congrArg List.length hsame.tokens).trans h.tokens_length
  exact ⟨(hleft.isOnTheWay hd).delivers (fun _ _ h => by cases h), hleft, hsame.rxBuf, hsame.tokens⟩

end World.Dispatching

/-- What has been delivered when the first keys have had theirs. -/
def deliveredFirst (w : World) (tokenCount : Nat) (registry : List JsonStruct) (i : Nat) :
    List Event :=
  (registry.take i).flatMap (delivery w.rxDocument w.jsonTokenStruct tokenCount)

section FirstKeys

variable (w : World) (tokenCount : Nat) {i : Nat} {registry : List JsonStruct} {key : JsonStruct}

/-- Behind the last key there is nothing more to deliver. -/
theorem deliveredFirst_of_none (h : registry[i]? = none) :
    deliveredFirst w tokenCount registry (i + 1) = deliveredFirst w tokenCount registry i := by
  unfold deliveredFirst
  rw [List.take_add_one, h, Option.toList_none, List.append_nil]

/-- Each key adds what it delivers to that of the keys before. -/
theorem deliveredFirst_succ (h : registry[i]? = some key) :
    deliveredFirst w tokenCount registry (i + 1) = deliveredFirst w tokenCount registry i ++
      delivery w.rxDocument w.jsonTokenStruct tokenCount key := by
  unfold deliveredFirst
  rw [List.take_add_one, h, Option.toList_some, List.flatMap_append, List.flatMap_singleton]

/-- What the first keys deliver is the beginning of what all of them do. -/
theorem deliveredFirst_prefix (i : Nat) : deliveredFirst w tokenCount registry i <+:
    registry.flatMap (delivery w.rxDocument w.jsonTokenStruct tokenCount) := by
  refine ⟨(registry.drop i).flatMap (delivery w.rxDocument w.jsonTokenStruct tokenCount), ?_⟩
  unfold deliveredFirst
  rw [← List.flatMap_append, List.take_append_drop]

end FirstKeys

/-- One turn of the loop delivers what the document delivers to one key. -/
theorem wp_dispatchKey (hcall : ∀ proc, Spares (call proc)) {w : World} {tokenCount i : Nat}
    (hs : s.IsQuiet)
    (hall : s.tokenTable.flatMap (delivery w.rxDocument w.jsonTokenStruct tokenCount) =
      deliveriesOf document s.tokenTable)
    (ht : s.Dispatching m document (deliveredFirst w tokenCount s.tokenTable i) t)
    (hrxBuf : t.shadowRxBuf = w.shadowRxBuf) (htokens : t.jsonTokenStruct = w.jsonTokenStruct) :
    wp deliveryDiscipline (dispatchKey fuel call tokenCount i) (fun _ u =>
      s.Dispatching m document (deliveredFirst w tokenCount s.tokenTable (i + 1)) u ∧
        u.shadowRxBuf = w.shadowRxBuf ∧ u.jsonTokenStruct = w.jsonTokenStruct) t := by
  have hdocument : t.rxDocument = w.rxDocument := by
    rw [World.rxDocument, hrxBuf, World.rxDocument]
  have hbegins (i : Nat) : deliveredFirst w tokenCount s.tokenTable i <+:
      deliveriesOf document s.tokenTable := hall ▸ deliveredFirst_prefix w tokenCount i
  unfold dispatchKey
  rw [wp_bind]
  apply wp_act_solo.mpr
  intro _
  refine ⟨(ht.isOnTheWay (hbegins i)).delivers fun _ _ => List.ne_cons_self, ?_⟩
  dsimp only [id_eq]
  rw [wp_ret, ht.table_eq, hdocument, htokens]
  cases hkey : s.tokenTable[i]? with
  | none =>
      -- The loop goes on over indices that are not in use.
      rw [deliveredFirst_of_none w tokenCount hkey]
      exact ⟨ht, hrxBuf, htokens⟩
  | some key =>
      have hsucc := deliveredFirst_succ w tokenCount hkey
      have hnext := hbegins (i + 1)
      rw [hsucc] at hnext ⊢
      unfold delivery at hnext ⊢
      dsimp only
      cases hmatch : isJsonKeyMatchingAndUpdateValue w.rxDocument w.jsonTokenStruct tokenCount
          key.key key.type with
      | none =>
          rw [List.append_nil]
          exact ⟨ht, hrxBuf, htokens⟩
      | some v =>
          rw [hmatch] at hnext
          have hmatched := ht.matched key v.stored
          dsimp only at hnext ⊢
          rw [wp_bind]
          apply wp_act_solo.mpr
          intro _
          refine ⟨(hmatched.isOnTheWay ?_).delivers (fun _ _ h => by cases h), ?_⟩
          · apply List.IsPrefix.trans _ hnext
            rw [List.prefix_append_right_inj]
            exact List.cons_prefix_cons.mpr ⟨rfl, List.nil_prefix⟩
          cases hcb : key.cb with
          | none => exact ⟨hmatched, hrxBuf, htokens⟩
          | some name =>
              have hcalled := hmatched.deltaCallback key
                (w.shadowRxBuf.load v.dataPosition v.dataLength.toNat) v.dataLength
              rw [hcb] at hnext
              rw [List.append_assoc] at hcalled
              rw [wp_ret]
              dsimp only
              rw [wp_bind, hrxBuf]
              apply wp_act_solo.mpr
              intro _
              refine ⟨(hcalled.isOnTheWay hnext).delivers (fun _ _ h => by cases h), ?_⟩
              apply wp_mono _ (hcalled.wp_callback hcall hs hnext name)
              rintro _ u ⟨hu, hbuf, htok⟩
              exact ⟨hu, hbuf.trans hrxBuf, htok.trans htokens⟩

/-- A delta that has not been dispatched delivers nothing. -/
theorem World.Handled.of_not_dispatched (hstack : t.stack = .delta m :: s.stack)
    (htokens : t.jsonTokenStruct.length = s.jsonTokenStruct.length)
    (htable : t.tokenTable = s.tokenTable) (hdispatch : t.trace.dispatch = none) :
    s.Handled m t := by
  refine ⟨hstack, htokens, htable, ?_⟩
  intro document d hd
  rw [hdispatch] at hd
  cases hd

/-- A delta that is not dispatched has nothing to deliver. -/
theorem World.isOnTheWay_of_not_dispatched (h : t.trace.dispatch = none) : t.IsOnTheWay := by
  intro _ document d hd
  rw [h] at hd
  cases hd

/-- A delta that is newer than those before, or any delta where old ones are not
discarded, delivers what its document delivers. -/
theorem wp_dispatchKeys (hcall : ∀ proc, Spares (call proc)) (hs : s.IsQuiet)
    (hkeys : s.KeysHaveValues m) (hfits : m.payloadLen ≤ shadowMaxSizeOfRxBuffer)
    {tokenCount : Nat} {received : World}
    (hreceived : received = ((s.log (.enter (.delta m))).withPayload m).withRxTokens)
    (hcount : ((s.log (.enter (.delta m))).withPayload m).rxTokenCount = some tokenCount)
    (hnew : received.isOldDelta tokenCount = false) :
    deliveryDiscipline.guar received (received.withDeltaVersion tokenCount) ∧
      wp deliveryDiscipline (Program.forEach (dispatchKey fuel call tokenCount)
        (List.range maxJsonTokenExpected)) (fun _ t => s.Handled m t)
        (received.withDeltaVersion tokenCount) := by
  have hlength : received.jsonTokenStruct.length = s.jsonTokenStruct.length :=
    hreceived ▸ length_isJsonValidAndParse _ _
  have hall : deliveriesOf (received.rxDocument.text 0) s.tokenTable =
      s.tokenTable.flatMap (delivery received.rxDocument received.jsonTokenStruct tokenCount) := by
    subst hreceived
    exact deliveriesOf_eq (w := s) hkeys hs.1.tokens_length hfits hcount
  -- nothing has been delivered in front of the first key
  have hstart : s.Dispatching m (received.rxDocument.text 0)
      (deliveredFirst received tokenCount s.tokenTable 0)
      (received.withDeltaVersion tokenCount) := by
    unfold World.withDeltaVersion
    rw [hnew]
    subst hreceived
    exact ⟨rfl, hlength, rfl, rfl⟩
  have hrxBuf : (received.withDeltaVersion tokenCount).shadowRxBuf = received.shadowRxBuf ∧
      (received.withDeltaVersion tokenCount).jsonTokenStruct = received.jsonTokenStruct := by
    unfold World.withDeltaVersion
    split <;> exact ⟨rfl, rfl⟩
  refine ⟨(hstart.isOnTheWay (hall ▸ deliveredFirst_prefix _ _ 0)).delivers ?_, ?_⟩
  · intro _ _ htrace
    unfold World.withDeltaVersion at htrace
    rw [hnew] at htrace
    cases htrace
  · apply wp_mono _ (wp_forEach_range (I := fun i u =>
      s.Dispatching m (received.rxDocument.text 0)
        (deliveredFirst received tokenCount s.tokenTable i)
        u ∧ u.shadowRxBuf = received.shadowRxBuf ∧ u.jsonTokenStruct = received.jsonTokenStruct)
      ?_ _ ⟨hstart, hrxBuf⟩)
    · rintro _ u ⟨hu, -⟩
      refine ⟨hu.stack_eq, hu.tokens_length, hu.table_eq, ?_⟩
      intro document d hd
      rw [hu.dispatch_eq] at hd
      cases hd
      unfold deliveredFirst
      rw [List.take_of_length_le hs.1.table_length, hall]
    · rintro i u - ⟨hu, hbuf, htok⟩
      exact wp_dispatchKey hcall hs hall.symm hu hbuf htok

/-- A delta delivers what its document delivers. -/
theorem wp_shadowDeltaBody (hcall : ∀ proc, Spares (call proc)) (hs : s.IsQuiet)
    (hkeys : s.KeysHaveValues m) :
    wp deliveryDiscipline (shadowDeltaBody fuel call m) (fun _ t => s.Handled m t)
      (s.log (.enter (.delta m))) := by
  let entered := s.log (.enter (.delta m))
  let received := (entered.withPayload m).withRxTokens
  have hlength : received.jsonTokenStruct.length = s.jsonTokenStruct.length :=
    length_isJsonValidAndParse _ _
  have hignored : s.Handled m received := .of_not_dispatched rfl hlength rfl rfl
  unfold shadowDeltaBody
  rw [wp_bind]
  apply wp_receiveDocument
  · intro _
    exact World.Handled.of_not_dispatched rfl rfl rfl rfl
  · exact (World.isOnTheWay_of_not_dispatched rfl).delivers fun _ _ => List.ne_cons_self
  · exact (World.isOnTheWay_of_not_dispatched rfl).delivers fun _ _ => List.ne_cons_self
  intro hfits
  cases hcount : (entered.withPayload m).rxTokenCount with
  | none => exact hignored
  | some tokenCount =>
      dsimp only
      rw [wp_bind]
      apply wp_act_solo.mpr
      intro _
      rw [wp_ret]
      change deliveryDiscipline.guar received (received.withDeltaVersion tokenCount) ∧
        wp _ (if received.isOldDelta tokenCount then _ else _) _
          (received.withDeltaVersion tokenCount)
      cases hold : received.isOldDelta tokenCount with
      | true =>
          -- an old version drops the message
          have hdropped : received.withDeltaVersion tokenCount = received := by
            unfold World.withDeltaVersion
            rw [hold]
            rfl
          rw [hdropped]
          exact ⟨(World.isOnTheWay_of_not_dispatched rfl).delivers fun _ _ => List.ne_cons_self,
            hignored⟩
      | false => exact wp_dispatchKeys hcall hs hkeys hfits rfl hcount hold

/-- A delta that has been handled leaves no delivery behind. -/
theorem spares_shadowDeltaCallback (hcall : ∀ proc, Spares (call proc)) (m : MessageRef) :
    Spares (shadowDeltaCallback fuel call m) := by
  intro s hs
  unfold shadowDeltaCallback framedVoid
  rw [wp_bind]
  apply wp_framed
  intro hmay
  have hquiet : s.IsQuiet := ⟨hs, hmay.1 _ rfl rfl⟩
  refine ⟨(World.isOnTheWay_of_not_dispatched rfl).delivers (fun _ _ h => by cases h), ?_⟩
  rw [wp_bind]
  apply wp_mono _ (wp_shadowDeltaBody hcall hquiet (hmay.2 m rfl))
  intro _ t ht _
  exact ht.leave hquiet .success

/-- A request is quiet if what it does is quiet. -/
theorem quiet_requested (args : ActionArgs) (doc : List UInt8)
    (body : Option (List UInt8) → M IotError) (hbody : ∀ token, Quiet (body token)) :
    Quiet (requested args doc body) := quiet_of_spares (spares_requested hbody)

/-- What a call of the interface changes is beside deliveries. -/
theorem isBeside_of_mem_parts {c : Call} : ∀ part ∈ c.parts, part.IsBeside := by
  intro part hpart
  cases c <;> simp [Call.parts] at hpart <;> rcases hpart with rfl | rfl | rfl <;> trivial

/-- Every procedure spares the deliveries around it, if those that it calls do. -/
theorem spares_runProcedure (hcall : ∀ proc, Spares (call proc)) (proc : Procedure) :
    Spares (runProcedure fuel call proc) := by
  have hdisturbing (c : Call) (hc : (Frame.call c).disturbs) :
      Spares (framed (.call c) (perform fuel call c)) := by
    apply spares_framed hc trivial
    apply tableWalks_quiet.perform quiet_requested (fun proc => quiet_of_spares (hcall proc))
    exact isBeside_of_mem_parts
  have hother (c : Call) (hparts : ∀ part ∈ c.parts, part.Spares) :
      Spares (framed (.call c) (perform fuel call c)) := by
    apply walks_spares.framed (f := .call c) trivial
    apply tableWalks_spares.perform _ hcall hparts
    exact fun _ _ _ hbody => spares_requested fun token => quiet_of_spares (hbody token)
  cases proc with
  | receive packet =>
      exact tableWalks_spares.receivePacket (fun _ => trivial) (fun _ => trivial) trivial
        (spares_ackStatusCallback hcall) (spares_shadowDeltaCallback hcall)
        (fun c => hcall (.call c)) packet
  | call c =>
      cases c with
      | init => exact hdisturbing _ rfl
      | registerDelta s => exact hdisturbing _ rfl
      | _ =>
          apply hother
          intro part hpart
          simp [Call.parts] at hpart <;> rcases hpart with rfl | rfl | rfl <;> trivial

/-- So every procedure does, with any fuel. -/
theorem spares_api (fuel : Nat) (proc : Procedure) : Spares (api fuel proc) := by
  induction fuel generalizing proc with
  | zero => exact fun _ _ => trivial
  | succ fuel ih => exact spares_runProcedure ih proc

/-- So does the whole application. -/
theorem spares_app (fuel : Nat) : Spares (app fuel) :=
  walks_spares.application fun c => spares_api fuel (.call c)

end Callbacks

/-- In every run in which the callbacks of deltas leave the document alone: what is
delivered depends on the document and the registry alone. -/
theorem delivers_of_moves {fuel : Nat} {w s t : World} {p p' : M Unit}
    (htokens : w.jsonTokenStruct.length = maxJsonTokenExpected)
    (htable : w.tokenTable.length ≤ maxJsonTokenExpected) (htrace : w.trace = [])
    (hmoves : Moves (fun _ _ _ => True) World.LeavesAlone (app fuel, w) (p, s))
    (hmove : Move (fun _ _ _ => True) World.LeavesAlone (p, s) (p', t)) : s.Delivers t := by
  have hnone : ¬ w.HasDelta := by
    rintro ⟨m, hmem⟩
    rw [World.stack, htrace] at hmem
    cases hmem
  have hstart : w.IsOutside :=
    ⟨htokens, htable, fun h => absurd h hnone, fun h => absurd h hnone⟩
  have hwp := spares_app fuel w hstart
  have hs : s.IsOnTheWay :=
    invariant_moves (D := deliveryDiscipline) (fun _ _ _ h => h.isOnTheWay) hwp hstart.isOnTheWay
      hmoves
  rcases guar_of_moves (D := deliveryDiscipline) hwp hmoves hmove with hguar | rfl
  · exact hguar
  · exact hs.delivers fun _ _ => List.ne_cons_self

/-! ## A delta for two keys -/

/-- A delta with values for two registered keys arrives, whose callbacks make these calls. -/
def twoKeys (inCallbacks : List (Option Call)) : Script where
  traffic := [.done .success, .done .success,
    sampleMessage "$aws/things/t/shadow/update/delta" "\x7b\"version\":1,\"a\":1,\"b\":2\x7d"]
  calls := [some (connectAs "t"), some (registerKey "a" (some 0)), some (registerKey "b" (some 1)),
    some (.yield 0)] ++ inCallbacks
  expired := []

def publishingCallback : Script := twoKeys [some (.mqttPublish (ascii "x") (ascii "y") qos0)]

/-- The first callback makes a shadow action. -/
def updatingCallback : Script :=
  twoKeys [some (.update (some (sampleText "t"))
    (some (sampleText "\x7b\"clientToken\":\"xy\",\"q\":1,\"r\":2\x7d")) none 0 4 false)]

namespace World

def isDelivering (w : World) : Bool :=
  w.stack.any fun f => match f with
    | .deltaCallback _ => true
    | _ => false

theorem isDelivering_eq_true {w : World} (h : w.IsDelivering) : w.isDelivering = true := by
  obtain ⟨name, hmem⟩ := h
  exact List.any_eq_true.mpr ⟨_, hmem, rfl⟩

def keysHaveValues (w : World) (m : MessageRef) : Bool :=
  (w.withPayload m).rxTokenCount.all fun tokenCount => w.tokenTable.all fun s =>
    (keyIndex (w.withPayload m).rxDocument (w.withPayload m).withRxTokens.jsonTokenStruct tokenCount
      s.key).all fun i => decide (i + 1 < tokenCount)

/-- The test for values is sound. -/
theorem keysHaveValues_of_eq_true {w : World} {m : MessageRef} (h : w.keysHaveValues m = true) :
    w.KeysHaveValues m := by
  intro tokenCount hcount s hs i hi
  unfold keysHaveValues at h
  rw [hcount, Option.all_some, List.all_eq_true] at h
  have hkey := h s hs
  rw [hi, Option.all_some] at hkey
  exact of_decide_eq_true hkey

def leavesAlone (s t : World) : Bool :=
  match t.trace with
  | .enter f :: _ => !(f.disturbs && s.isDelivering) &&
      match f with
      | .delta m => s.keysHaveValues m
      | _ => true
  | _ => true

/-- The test for callbacks that leave the layer alone is sound. -/
theorem leavesAlone_of_eq_true (s t : World) (h : s.leavesAlone t = true) : s.LeavesAlone t := by
  unfold leavesAlone at h
  constructor
  · intro f htrace hdisturbs hdelivering
    rw [htrace] at h
    have hfirst := (Bool.and_eq_true_iff.mp h).1
    rw [hdisturbs, isDelivering_eq_true hdelivering] at hfirst
    cases hfirst
  · intro m htrace
    rw [htrace] at h
    exact keysHaveValues_of_eq_true (Bool.and_eq_true_iff.mp h).2

/-- How much has been delivered of which document. -/
def progress (w : World) : Option (List UInt8 × Nat) :=
  w.trace.dispatch.map fun d => (d.1, d.2.length)

end World

/-- The steps of the script leave deltas alone. -/
theorem movesTo_publishingCallback :
    publishingCallback.movesTo (fun _ _ _ => true) World.leavesAlone 6 186 = true := by
  decide +kernel

theorem delivers_publishingCallback :
    (publishingCallback.reached 6 186).2.progress =
        some (ascii "\x7b\"version\":1,\"a\":1,\"b\":2\x7d", 4) ∧
      (publishingCallback.reached 6 186).2.Delivers (publishingCallback.reached 6 187).2 :=
  ⟨by decide +kernel,
    delivers_of_moves rfl (Nat.zero_le _) rfl
      (Script.moves_reached (fun _ _ _ _ => trivial) World.leavesAlone_of_eq_true
        movesTo_publishingCallback)
      (Script.move_reached (by decide +kernel)
        (World.leavesAlone_of_eq_true _ _ (by decide +kernel)))⟩

def Event.endsDelta : Event → Bool
  | .leave (.delta _) _ => true
  | _ => false

/-- Whatever a delta has delivered when it has been handled is what `f` says. -/
def DeliversBy (f : List UInt8 → List JsonStruct → List Event) : Prop :=
  ∀ (fuel : Nat) (w s t : World) (p p' : M Unit),
    w.jsonTokenStruct.length = maxJsonTokenExpected →
    w.tokenTable.length ≤ maxJsonTokenExpected → w.trace = [] →
    Moves (fun _ _ _ => True) (fun _ _ => True) (app fuel, w) (p, s) →
    Move (fun _ _ _ => True) (fun _ _ => True) (p, s) (p', t) →
    ∀ m rc, t.trace = .leave (.delta m) rc :: s.trace → ∀ document d,
      s.trace.dispatch = some (document, d) → d = f document s.tokenTable

/-- A delta ends in this step, of whose document so much has been delivered. -/
theorem DeliversBy.length_eq {f : List UInt8 → List JsonStruct → List Event} (hf : DeliversBy f)
    (script : Script) (n : Nat) {k : Nat} {document : List UInt8} {registry : List JsonStruct}
    (hact : (script.reached 6 n).1.isAct = true)
    (hends : ((script.reached 6 n).2.logged (script.reached 6 (n + 1)).2).any Event.endsDelta =
      true)
    (hprogress : (script.reached 6 n).2.progress = some (document, k))
    (hregistry : (script.reached 6 n).2.tokenTable = registry) :
    (f document registry).length = k := by
  have hmoves := script.moves_anyhow 6 n
  have hmove : Move (fun _ _ _ => True) (fun _ _ => True)
      ((script.reached 6 n).1, (script.reached 6 n).2)
      ((script.reached 6 (n + 1)).1, (script.reached 6 (n + 1)).2) :=
        Script.move_reached hact trivial
  have hrecords := records_of_step hmoves.steps hmove.step
  obtain ⟨e, hlogged, he⟩ := (Option.any_eq_true _ _).mp hends
  have htrace := hrecords.trace_eq hlogged
  obtain ⟨⟨document', d⟩, hdispatch, heq⟩ := Option.map_eq_some_iff.mp hprogress
  cases heq
  cases e with
  | leave frame rc =>
      cases frame with
      | delta m =>
          rw [hf 6 blankWorld _ _ _ _ rfl (Nat.zero_le _) rfl hmoves hmove m rc
            htrace _ _ hdispatch, hregistry]
      | _ => cases he
  | _ => cases he

/-- The second key is found where the first callback does nothing but publish, and
not where it makes an action. -/
theorem not_deliversBy : ¬ ∃ f, DeliversBy f := by
  rintro ⟨f, hf⟩
  have hpublishing : (f (ascii "\x7b\"version\":1,\"a\":1,\"b\":2\x7d")
      [⟨ascii "a", .int32, some 0⟩, ⟨ascii "b", .int32, some 1⟩]).length = 4 :=
    hf.length_eq publishingCallback 186 (by decide +kernel) (by decide +kernel)
      (by decide +kernel) (by decide +kernel)
  have hupdating : (f (ascii "\x7b\"version\":1,\"a\":1,\"b\":2\x7d")
      [⟨ascii "a", .int32, some 0⟩, ⟨ascii "b", .int32, some 1⟩]).length = 2 :=
    hf.length_eq updatingCallback 184 (by decide +kernel) (by decide +kernel)
      (by decide +kernel) (by decide +kernel)
  omega

end MqttClient.Shadow
