import MqttClient.Shadow.Traversal

/-! # Runs of the shadow layer that keep to a discipline

The layer is run by one thread. For such runs the rules of its operations are proved here once,
and that they obey a discipline follows from what single steps do.
-/

namespace MqttClient.Shadow

open Effect Program

/-- The discipline of runs of the layer alone, which may end at any point. -/
def alone (pre : Query → World → Prop) (allow : (q : Query) → World → Answer q → Prop)
    (may guar : World → World → Prop) : Discipline World Answer where
  pre := pre
  allow := allow
  may := may
  guar := guar
  rely s t := t = s
  halts _ := True

instance (pre : Query → World → Prop) (allow : (q : Query) → World → Answer q → Prop)
    (may guar : World → World → Prop) : (alone pre allow may guar).Solo := ⟨fun _ _ => Iff.rfl⟩

/-- The discipline of all runs, in which all states that are reached are in `P`. -/
abbrev reachingOnly (P : World → Prop) : Discipline World Answer :=
  alone (fun _ _ => True) (fun _ _ _ => True) (fun _ _ => True) fun _ t => P t

instance (P : World → Prop) : (reachingOnly P).Sequential :=
  ⟨fun _ _ => trivial, fun _ _ => Iff.rfl⟩

/-! ## What decides about a response -/

namespace World

/-- The token by which the record of a message is looked for. -/
def ackToken (w : World) (m : MessageRef) : Option (List UInt8) :=
  if m.payloadLen > shadowMaxSizeOfRxBuffer then none
  else (w.withPayload m).rxTokenCount.bind fun _ => (w.withPayload m).withRxTokens.rxClientToken

/-- The record waits for an answer to this token. -/
def Awaits (w : World) (token : List UInt8) (i : AckIndex) : Prop :=
  (w.ackWaitList i).isFree = false ∧ (w.ackWaitList i).tokenText = token

instance (w : World) (token : List UInt8) (i : AckIndex) : Decidable (w.Awaits token i) :=
  inferInstanceAs (Decidable (_ ∧ _))

theorem readBuf_withResponseVersion (w : World) (m : MessageRef) (tokenCount : Nat) :
    (w.withResponseVersion m tokenCount).readBuf = w.readBuf := by
  unfold withResponseVersion
  split <;> rfl

theorem rxClientToken_withResponseVersion (w : World) (m : MessageRef) (tokenCount : Nat) :
    (w.withResponseVersion m tokenCount).rxClientToken = w.rxClientToken := by
  unfold withResponseVersion
  split <;> rfl

/-- The token of a message is found in the payload, with the help of the buffer and the tokens. -/
theorem ackToken_congr {s w : World} {m : MessageRef} (hread : s.readBuf = w.readBuf)
    (hrx : s.shadowRxBuf = w.shadowRxBuf) (htokens : s.jsonTokenStruct = w.jsonTokenStruct) :
    s.ackToken m = w.ackToken m := by
  simp only [ackToken, withPayload, rxTokenCount, withRxTokens, rxClientToken, rxDocument, hread,
    hrx, htokens]

end World

/-- The words in a text let `AckStatusCallback` report this status. -/
def AllowsStatus (text : List UInt8) (status : AckStatus) : Prop :=
  if ascii "accepted" <:+: text then status = .accepted
  else if ascii "rejected" <:+: text then status = .rejected
  else status ≠ .timeout

/-- A response is never taken for a timeout. -/
theorem AllowsStatus.ne_timeout {text : List UInt8} {status : AckStatus}
    (h : AllowsStatus text status) : status ≠ .timeout := by
  unfold AllowsStatus at h
  split at h
  next => simp [h]
  next =>
      split at h
      next => simp [h]
      next => exact h

/-! ## The rules -/

section Rules

variable {D : Discipline World Answer} [D.Solo] {s : World}

theorem wp_framed {f : Frame} {body : M IotError} {Φ : IotError → World → Prop}
    (h : D.may s (s.log (.enter f)) → D.guar s (s.log (.enter f)) ∧
      wp D body (fun rc t => D.may t (t.log (.leave f rc)) →
        D.guar t (t.log (.leave f rc)) ∧ Φ rc (t.log (.leave f rc))) (s.log (.enter f))) :
    wp D (framed f body) Φ s := by
  apply wp_act_solo.mpr
  intro hmay
  obtain ⟨hguar, hbody⟩ := h hmay
  refine ⟨hguar, ?_⟩
  change wp D (body >>= fun rc => emit (.leave f rc) >>= fun _ => .ret rc) Φ _
  rw [wp_bind]
  apply wp_mono _ hbody
  intro rc t ht
  exact wp_act_solo.mpr ht

theorem wp_framedVoid {f : Frame} {body : M Unit} {Φ : Unit → World → Prop}
    (h : D.may s (s.log (.enter f)) → D.guar s (s.log (.enter f)) ∧
      wp D body (fun _ t => D.may t (t.log (.leave f .success)) →
        D.guar t (t.log (.leave f .success)) ∧ Φ () (t.log (.leave f .success)))
        (s.log (.enter f))) :
    wp D (framedVoid f body) Φ s := by
  unfold framedVoid
  rw [wp_bind]
  apply wp_framed
  intro hmay
  obtain ⟨hguar, hbody⟩ := h hmay
  refine ⟨hguar, ?_⟩
  rw [wp_bind]
  exact wp_mono (fun _ _ ht => ht) hbody

/-- The beginning of both message callbacks changes the document only. -/
theorem wp_receiveDocument {m : MessageRef} {Φ : Option Nat → World → Prop}
    (hlong : m.payloadLen > shadowMaxSizeOfRxBuffer → Φ none s)
    (hpayload : D.guar s (s.withPayload m))
    (htokens : D.guar (s.withPayload m) (s.withPayload m).withRxTokens)
    (hreceived : m.payloadLen ≤ shadowMaxSizeOfRxBuffer →
      Φ (s.withPayload m).rxTokenCount (s.withPayload m).withRxTokens) :
    wp D (receiveDocument m) Φ s := by
  unfold receiveDocument
  split
  next hlength => exact hlong hlength
  next hlength =>
      apply wp_act_solo.mpr
      intro _
      refine ⟨hpayload, wp_act_solo.mpr fun _ => ⟨htokens, ?_⟩⟩
      exact hreceived (Nat.le_of_not_lt hlength)

/-- The words in the topic decide about the status; without them anything may be found. -/
theorem wp_ackStatusOf (hpre : ∀ q w, D.pre q w) {topicName : List UInt8}
    {Φ : Option AckStatus → World → Prop} (hnone : Φ none s)
    (hsome : ∀ status, AllowsStatus topicName status → Φ (some status) s) :
    wp D (ackStatusOf topicName) Φ s := by
  unfold ackStatusOf
  unfold AllowsStatus at hsome
  split
  next haccepted => exact hsome _ (if_pos haccepted ▸ rfl)
  next haccepted =>
      simp only [if_neg haccepted] at hsome
      split
      next hrejected => exact hsome _ (if_pos hrejected ▸ rfl)
      next hrejected =>
          simp only [if_neg hrejected] at hsome
          refine wp_ask_solo.mpr ⟨hpre _ s, fun value _ => ?_⟩
          change Φ (if value = (2 : UInt32) then some .accepted
            else if value = (1 : UInt32) then some .rejected else none) s
          split
          next => exact hsome _ nofun
          next =>
              split
              next => exact hsome _ nofun
              next => exact hnone

variable {fuel : Nat} {call : Procedure → M IotError} {i : AckIndex} {m : MessageRef}

/-- A response completes the record at hand, if that waits for its token, or leaves all as
it is. -/
theorem wp_ackRecord {token : List UInt8} {Φ : Option Unit → World → Prop}
    (hpre : ∀ q w, D.pre q w) (hget : D.guar s s) (hother : Φ none s)
    (hcomplete : ∀ status, s.Awaits token i → AllowsStatus (s.readText m.topicOff) status →
      wp D (completeAck fuel call i status) (fun _ t => Φ (some ()) t) s) :
    wp D (ackRecord fuel call m token i) Φ s := by
  apply wp_act_solo.mpr
  intro _
  refine ⟨hget, ?_⟩
  change wp D (if _ then _ else _) _ _
  split
  next hfound =>
      have hawaits : s.Awaits token i := by simpa [World.Awaits] using hfound
      rw [wp_bind]
      apply wp_ackStatusOf hpre hother
      intro status hallows
      change wp D (completeAck fuel call i status >>= fun _ => _) _ _
      rw [wp_bind]
      exact hcomplete status hawaits hallows
  next => exact hother

/-- Before a record is completed a response changes the document and the version only. `P` says
what is known until then. -/
theorem wp_ackStatusBody {P : World → Prop} {Φ : Unit → World → Prop}
    (hpre : ∀ q w, D.pre q w) (hget : ∀ t, P t → D.guar t t)
    (hdocument : ∀ t u, P t → t.ChangesTo .document u → D.guar t u ∧ P u)
    (hversion : ∀ t tokenCount, P t → D.guar t (t.withResponseVersion m tokenCount) ∧
      P (t.withResponseVersion m tokenCount))
    (hend : ∀ t, P t → Φ () t)
    (hcomplete : ∀ t token i status, P t → s.ackToken m = some token → t.Awaits token i →
      AllowsStatus (t.readText m.topicOff) status → wp D (completeAck fuel call i status) Φ t)
    (hs : P s) : wp D (ackStatusBody fuel call m) Φ s := by
  have hpayload := hdocument s (s.withPayload m) hs ⟨rfl, rfl⟩
  have htokens := hdocument _ _ hpayload.2 (s.withPayload m).changesTo_withRxTokens
  unfold ackStatusBody
  rw [wp_bind]
  apply wp_receiveDocument (fun _ => hend s hs) hpayload.1 htokens.1
  intro hlength
  cases hcount : (s.withPayload m).rxTokenCount with
  | none => exact hend _ htokens.2
  | some tokenCount =>
      have hversioned := hversion _ tokenCount htokens.2
      have hscanned := hdocument _ _ hversioned.2 (World.changesTo_withRxTokens _)
      refine wp_act_solo.mpr fun _ => ⟨hversioned.1, ?_⟩
      change wp D (answerToken fuel call m) Φ _
      unfold answerToken
      rw [wp_bind]
      refine wp_act_solo.mpr fun _ => ⟨hscanned.1, ?_⟩
      rw [wp_ret, World.rxClientToken_withResponseVersion]
      cases htoken : (s.withPayload m).withRxTokens.rxClientToken with
      | none => exact hend _ hscanned.2
      | some token =>
          -- the message has a token, so the records are asked in turn
          have hack : s.ackToken m = some token := by
            rw [World.ackToken, if_neg (Nat.not_lt.mpr hlength), hcount, Option.bind_some, htoken]
          change wp D (firstOf _ _ >>= fun _ => _) _ _
          rw [wp_bind]
          apply wp_mono _ (wp_firstOf (I := P) (Φ := fun _ => Φ ()) _ _ _ hscanned.2)
          · intro r t ht
            cases r with
            | none => exact hend t ht
            | some _ => exact ht
          · intro i t ht
            apply wp_ackRecord hpre (hget t ht) ht
            exact fun status hawaits hallows => hcomplete t token i status ht hack hawaits hallows

/-- A look at the timers completes the record at hand, if that is in use, or leaves all as
it is. -/
theorem wp_expired {Φ : Unit → World → Prop} (hpre : ∀ q w, D.pre q w) (hget : D.guar s s)
    (hother : Φ () s) (hcomplete : (s.ackWaitList i).isFree = false →
      D.allow (.hasTimerExpired i) s true → wp D (completeExpired fuel call i) Φ s) :
    wp D (do
      let w ← Program.get
      if (w.ackWaitList i).isFree then return ()
      else
        let (expired : Bool) ← ask (.hasTimerExpired i)
        if expired then completeExpired fuel call i else return ()) Φ s := by
  apply wp_act_solo.mpr
  intro _
  refine ⟨hget, ?_⟩
  change wp D (if _ then _ else _) _ _
  split
  next => exact hother
  next hused =>
      refine wp_ask_solo.mpr ⟨hpre _ s, fun (expired : Bool) hexpired => ?_⟩
      change wp D (if _ then _ else _) _ _
      split
      next hdue =>
          subst hdue
          exact hcomplete (Bool.eq_false_iff.mpr hused) hexpired
      next => exact hother

end Rules

/-- Programs that keep an invariant `I`, their end being related to their start by
`R`. What a frame encloses has to keep what its leaving needs. -/
theorem walks_preserves {F : Frame → Prop} {K : Part → Prop} {D : Discipline World Answer}
    [D.Solo] {I : World → Prop} {R : World → World → Prop} (hrefl : ∀ s, R s s)
    (htrans : ∀ s t u, R s t → R t u → R s u) (hpre : ∀ q s, I s → D.pre q s)
    (hhalts : ∀ s, I s → D.halts s) (hget : ∀ s, I s → D.guar s s)
    (hparts : ∀ part s t, K part → s.ChangesTo part t → I s → D.may s t →
      D.guar s t ∧ I t ∧ R s t)
    (henter : ∀ f s, F f → I s → D.may s (s.log (.enter f)) →
      D.guar s (s.log (.enter f)) ∧ I (s.log (.enter f)))
    (hleave : ∀ f s t rc, F f → I s → D.may s (s.log (.enter f)) → I t →
      R (s.log (.enter f)) t → D.may t (t.log (.leave f rc)) →
      D.guar t (t.log (.leave f rc)) ∧ I (t.log (.leave f rc)) ∧ R s (t.log (.leave f rc))) :
    Walks F K fun _ p => Preserves D I R p where
  ret := preserves_pure hrefl
  stop := fun s hs => hhalts s hs
  bind := Preserves.bind htrans
  ask := fun q s hs => wp_ask_solo.mpr ⟨hpre q s hs, fun _ _ => ⟨hs, hrefl s⟩⟩
  get := fun s hs => wp_act_solo.mpr fun _ => ⟨hget s hs, hs, hrefl s⟩
  atomically := fun hpart hf s hs => wp_act_solo.mpr fun hmay => hparts _ s _ hpart (hf s) hs hmay
  framed := by
    intro f body hF hbody s hs
    apply wp_framed
    intro hmay
    obtain ⟨hguar, hentered⟩ := henter f s hF hs hmay
    refine ⟨hguar, wp_mono ?_ (hbody _ hentered)⟩
    intro rc t ht hmay'
    exact hleave f s t rc hF hs hmay ht.1 ht.2 hmay'

/-- Programs all of whose steps are as the discipline has them. -/
abbrev Obeys (D : Discipline World Answer) {α : Type} (p : M α) : Prop :=
  Preserves D (fun _ => True) (fun _ _ => True) p

namespace CoversTables

variable {step : World → World → Prop} {D : Discipline World Answer} [D.Solo]

theorem walks_obeys (h : CoversTables step) (hpre : ∀ q s, D.pre q s) (hhalts : ∀ s, D.halts s)
    (hguar : ∀ s t, step s t → D.guar s t) :
    Walks (fun _ => True) Part.isPlain fun _ p => Obeys D p :=
  walks_preserves (fun _ => trivial) (fun _ _ _ _ _ => trivial) (fun q s _ => hpre q s)
    (fun s _ => hhalts s) (fun s _ => hguar s s (h.refl s))
    (fun part s t hpart hchange _ _ => ⟨hguar s t (h.part part s t hpart hchange),
      trivial, trivial⟩)
    (fun f s _ _ _ => ⟨hguar _ _ (h.part (.event (.enter f)) s _ trivial rfl), trivial⟩)
    fun f _ t rc _ _ _ _ _ _ =>
      ⟨hguar _ _ (h.part (.event (.leave f rc)) t _ trivial rfl), trivial, trivial⟩

theorem tableWalks_obeys (h : CoversTables step) (hpre : ∀ q s, D.pre q s)
    (hhalts : ∀ s, D.halts s) (hguar : ∀ s t, step s t → D.guar s t) :
    TableWalks (fun _ => True) Part.isPlain fun _ p => Obeys D p :=
  { h.walks_obeys hpre hhalts hguar with
    formerLocal := trivial
    handlers := trivial
    subscriptions := trivial
    acks := trivial
    unsubscribe := fun _ => trivial
    published := fun _ _ => trivial
    answered := fun _ _ _ => trivial
    awaited := fun i p token callback context isSticky s _ => wp_act_solo.mpr fun _ =>
      ⟨hguar _ _ (h.awaited s i p token callback context isSticky), trivial, trivial⟩
    subscribing := fun _ _ _ => trivial
    completing := fun _ _ => trivial
    releasing := fun _ => trivial
    callback := fun _ => trivial }

/-- Procedures obey a discipline if the two message callbacks do. -/
theorem obeys_runProcedure (h : CoversTables step) (hpre : ∀ q s, D.pre q s)
    (hhalts : ∀ s, D.halts s) (hguar : ∀ s t, step s t → D.guar s t) {fuel : Nat}
    {call : Procedure → M IotError} (hack : ∀ m, Obeys D (ackStatusCallback fuel call m))
    (hdelta : ∀ m, Obeys D (shadowDeltaCallback fuel call m))
    (hcall : ∀ proc, Obeys D (call proc)) (proc : Procedure) :
    Obeys D (runProcedure fuel call proc) := by
  have hwalks := h.walks_obeys hpre hhalts hguar
  apply (h.tableWalks_obeys hpre hhalts hguar).runProcedure (fun _ => trivial) trivial hack hdelta
  · intro args doc body hbody
    apply hwalks.bind
    · intro s _
      exact wp_act_solo.mpr fun _ => ⟨hguar _ _ (h.request s args doc), trivial, trivial⟩
    intro token
    apply hwalks.bind (hbody token)
    intro rc
    exact hwalks.bind (hwalks.emit (e := .leave (.action args token) rc) trivial) fun _ =>
      hwalks.ret rc
  · intro c part hpart
    cases c <;> simp [Call.parts] at hpart <;> rcases hpart with rfl | rfl | rfl <;> trivial
  · exact hcall

end CoversTables

/-! ## Message callbacks -/

/-- What the two message callbacks do with the version of a document is as the discipline has
it, where it lets them begin. -/
structure AdmitsVersions (D : Discipline World Answer) : Prop where
  response : ∀ (s t : World) (m : MessageRef) (tokenCount : Nat),
    D.may s (s.log (.enter (.ackStatus m))) → m.payloadLen ≤ shadowMaxSizeOfRxBuffer →
    (s.withPayload m).rxTokenCount = some tokenCount →
    t = ((s.log (.enter (.ackStatus m))).withPayload m).withRxTokens →
    D.guar t (t.withResponseVersion m tokenCount)
  delta : ∀ (s t : World) (m : MessageRef) (tokenCount : Nat),
    D.may s (s.log (.enter (.delta m))) → m.payloadLen ≤ shadowMaxSizeOfRxBuffer →
    (s.withPayload m).rxTokenCount = some tokenCount →
    t = ((s.log (.enter (.delta m))).withPayload m).withRxTokens →
    D.guar t (t.withDeltaVersion tokenCount)

namespace CoversTables

variable {step : World → World → Prop} {D : Discipline World Answer} [D.Solo]

omit [D.Solo] in
/-- To obey a discipline there is nothing that has to be returned. -/
theorem obeys_of_wp {α : Type} {p : M α} (h : ∀ s, wp D p (fun _ _ => True) s) : Obeys D p :=
  fun s _ => wp_mono (fun _ _ _ => ⟨trivial, trivial⟩) (h s)

/-- A call that returns nothing obeys the discipline if its body does, where it may begin. -/
theorem obeys_framedVoid (h : CoversTables step) (hguar : ∀ s t, step s t → D.guar s t) {f : Frame}
    {body : M Unit} (hbody : ∀ s : World, D.may s (s.log (.enter f)) →
      wp D body (fun _ _ => True) (s.log (.enter f))) : Obeys D (framedVoid f body) := by
  apply obeys_of_wp
  intro s
  apply wp_framedVoid
  intro hmay
  refine ⟨hguar _ _ (h.part (.event (.enter f)) s _ trivial rfl), ?_⟩
  apply wp_mono _ (hbody s hmay)
  intro _ t _ _
  exact ⟨hguar _ _ (h.part (.event (.leave f .success)) t _ trivial rfl), trivial⟩

/-- The beginning of a message callback. -/
theorem wp_receiveDocument (h : CoversTables step) (hguar : ∀ s t, step s t → D.guar s t)
    {s : World} {m : MessageRef} {Φ : Option Nat → World → Prop}
    (hother : ∀ t, Φ none t)
    (hreceived : ∀ tokenCount, m.payloadLen ≤ shadowMaxSizeOfRxBuffer →
      (s.withPayload m).rxTokenCount = some tokenCount →
      Φ (some tokenCount) (s.withPayload m).withRxTokens) :
    wp D (receiveDocument m) Φ s := by
  apply Shadow.wp_receiveDocument
  · exact fun _ => hother s
  · exact hguar _ _ (h.part .document s _ trivial ⟨rfl, rfl⟩)
  · exact hguar _ _ (h.part .document _ _ trivial (World.changesTo_withRxTokens _))
  · intro hlength
    cases hcount : (s.withPayload m).rxTokenCount with
    | none => exact hother _
    | some tokenCount => exact hreceived tokenCount hlength hcount

section Callbacks

variable {fuel : Nat} {call : Procedure → M IotError}

theorem obeys_ackStatusCallback (h : CoversTables step) (hpre : ∀ q s, D.pre q s)
    (hhalts : ∀ s, D.halts s) (hguar : ∀ s t, step s t → D.guar s t) (hversions : AdmitsVersions D)
    (hcall : ∀ proc, Obeys D (call proc)) (m : MessageRef) :
    Obeys D (ackStatusCallback fuel call m) := by
  have hwalks := h.tableWalks_obeys hpre hhalts hguar
  apply h.obeys_framedVoid hguar
  intro s hmay
  unfold ackStatusBody
  rw [wp_bind]
  apply h.wp_receiveDocument hguar fun _ => trivial
  intro tokenCount hlength hcount
  apply wp_act_solo.mpr
  intro _
  refine ⟨hversions.response s _ m tokenCount hmay hlength hcount rfl, ?_⟩
  have hanswer : Obeys D (answerToken fuel call m) :=
    hwalks.answerToken trivial (hwalks.answersRecord hcall m)
  exact wp_mono (fun _ _ _ => trivial) (hanswer _ trivial)

theorem obeys_shadowDeltaCallback (h : CoversTables step) (hpre : ∀ q s, D.pre q s)
    (hhalts : ∀ s, D.halts s) (hguar : ∀ s t, step s t → D.guar s t) (hversions : AdmitsVersions D)
    (hcall : ∀ proc, Obeys D (call proc)) (m : MessageRef) :
    Obeys D (shadowDeltaCallback fuel call m) := by
  have hwalks := h.tableWalks_obeys hpre hhalts hguar
  apply h.obeys_framedVoid hguar
  intro s hmay
  unfold shadowDeltaBody
  rw [wp_bind]
  apply h.wp_receiveDocument hguar fun _ => trivial
  intro tokenCount hlength hcount
  apply wp_act_solo.mpr
  intro _
  refine ⟨hversions.delta s _ m tokenCount hmay hlength hcount rfl, ?_⟩
  have hkeys : Obeys D
      (forEach (dispatchKey fuel call tokenCount) (List.range maxJsonTokenExpected)) :=
    hwalks.forEach (fun i => hwalks.dispatchKey hcall (fun _ _ => trivial)
      (fun _ _ _ => trivial) (fun _ => trivial) tokenCount i) _
  change wp D (if _ then _ else _) _ _
  split
  next => trivial
  next => exact wp_mono (fun _ _ _ => trivial) (hkeys _ trivial)

end Callbacks

/-- The layer obeys a discipline if its steps do and what is done with versions is admitted. -/
theorem obeys_api (h : CoversTables step) (hpre : ∀ q s, D.pre q s) (hhalts : ∀ s, D.halts s)
    (hguar : ∀ s t, step s t → D.guar s t) (hversions : AdmitsVersions D) (fuel : Nat)
    (proc : Procedure) : Obeys D (api fuel proc) := by
  induction fuel generalizing proc with
  | zero => exact fun s _ => hhalts s
  | succ fuel ih =>
      exact h.obeys_runProcedure hpre hhalts hguar
        (h.obeys_ackStatusCallback hpre hhalts hguar hversions ih)
        (h.obeys_shadowDeltaCallback hpre hhalts hguar hversions ih) ih proc

theorem obeys_app (h : CoversTables step) (hpre : ∀ q s, D.pre q s) (hhalts : ∀ s, D.halts s)
    (hguar : ∀ s t, step s t → D.guar s t) (hversions : AdmitsVersions D) (fuel : Nat) :
    Obeys D (app fuel) :=
  (h.tableWalks_obeys hpre hhalts hguar).application fun c =>
    h.obeys_api hpre hhalts hguar hversions fuel (.call c)

end CoversTables

end MqttClient.Shadow
