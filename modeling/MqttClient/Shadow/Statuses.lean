import MqttClient.Shadow.Script
import MqttClient.Shadow.Disciplines

/-! # The status that is reported

`AckStatusCallback` looks for the words "accepted" and "rejected" in the C string
that starts with the topic. No zero ends the topic in the receive buffer, so that
the string goes on into the payload.
-/

namespace MqttClient.Shadow

open Effect Program

/-- The record and the status with which a report begins. -/
def Event.report? : Event → Option (AckIndex × AckStatus)
  | .enter (.completing i status) => some (i, status)
  | _ => none

namespace World

/-- The first report since `w`. -/
def firstReport (w t : World) : Option (AckIndex × AckStatus) :=
  (t.trace.reverse.drop w.trace.length).findSome? Event.report?

/-- `AckStatusCallback` can report this status to this record. -/
def Reports (w : World) (m : MessageRef) (i : AckIndex) (status : AckStatus) : Prop :=
  ∃ fuel, Reaches (fun _ _ _ => True) (ackStatusCallback fuel (api fuel) m)
    (fun t => w.firstReport t = some (i, status)) w

/-- What is reported is what the topic says, and to a topic that says nothing no
record is reported or freed. -/
structure ReportsRightly (w : World) (m : MessageRef) : Prop where
  accepted : ∀ i status, w.Reports m i status →
    (status = .accepted ↔ ascii "/accepted" <:+ w.receivedTopic m)
  rejected : ∀ i status, w.Reports m i status →
    (status = .rejected ↔ ascii "/rejected" <:+ w.receivedTopic m)
  other : ¬ ascii "/accepted" <:+ w.receivedTopic m → ¬ ascii "/rejected" <:+ w.receivedTopic m →
    ∀ fuel p t, Steps (fun _ _ _ => True) (ackStatusCallback fuel (api fuel) m, w) (p, t) →
      w.firstReport t = none ∧ t.ackWaitList = w.ackWaitList

/-- No record waits for an answer to the token of the message. -/
def IsUnawaited (w : World) (m : MessageRef) : Prop :=
  ∀ token, w.ackToken m = some token → ∀ i, ¬ w.Awaits token i

/-- The words in the string that starts with the topic are those at its end. -/
def TellsStatus (w : World) (m : MessageRef) : Prop :=
  (ascii "/accepted" <:+ w.receivedTopic m ∧ ascii "accepted" <:+: w.readText m.topicOff) ∨
    (ascii "/rejected" <:+ w.receivedTopic m ∧ ascii "rejected" <:+: w.readText m.topicOff ∧
      ¬ ascii "accepted" <:+: w.readText m.topicOff)

end World

/-! ## Traces and documents -/

namespace World

variable {w s t : World}

theorem firstReport_log (hlength : w.trace.length ≤ s.trace.length) (e : Event) :
    w.firstReport (s.log e) = (w.firstReport s).or e.report? := by
  have hlast : [e].findSome? Event.report? = e.report? := by
    rw [List.findSome?_cons]
    cases e.report? <;> rfl
  unfold firstReport
  rw [trace_log, List.reverse_cons, List.drop_append_of_le_length (by simpa using hlength),
    List.findSome?_append, hlast]

theorem firstReport_congr (htrace : t.trace = s.trace) : w.firstReport t = w.firstReport s := by
  rw [firstReport, htrace, firstReport]

end World

/-- The trace only grows. -/
theorem coversSteps_suffix : CoversSteps fun s t => s.trace <:+ t.trace where
  refl := fun s => List.suffix_refl s.trace
  part := by
    intro part s t _ hchange
    cases part with
    | event e => rw [hchange]; exact List.suffix_cons e s.trace
    | version => rw [hchange]; exact List.suffix_cons _ s.trace
    | document | registry => rw [hchange.1]
    | _ => rw [hchange]
  awaited := fun _ _ _ _ _ _ _ => List.suffix_cons _ _
  response := by
    intro s m tokenCount
    unfold World.withResponseVersion
    split
    next => exact List.suffix_refl _
    next => exact List.suffix_cons _ _
  delta := by
    intro s tokenCount
    unfold World.withDeltaVersion
    split
    next => exact List.suffix_refl _
    next => exact List.suffix_cons _ _
  request := fun _ _ _ => List.suffix_cons _ _

/-! ## What is reported -/

namespace World

variable {w s t : World} {m : MessageRef} {i : AckIndex} {status : AckStatus}

/-- Nothing has been reported since `w`, and nothing has changed that decides
what will be. -/
structure IsDeciding (w s : World) : Prop where
  length_le : w.trace.length ≤ s.trace.length
  report : w.firstReport s = none
  readBuf : s.readBuf = w.readBuf
  acks : s.ackWaitList = w.ackWaitList

/-- The first report is that of this record with this status. -/
structure HasReported (w : World) (i : AckIndex) (status : AckStatus) (s : World) : Prop where
  length_le : w.trace.length ≤ s.trace.length
  report : w.firstReport s = some (i, status)

theorem IsDeciding.refl (w : World) : w.IsDeciding w where
  length_le := Nat.le_refl _
  report := by simp [firstReport, List.drop_eq_nil_of_le]
  readBuf := rfl
  acks := rfl

theorem IsDeciding.congr (h : w.IsDeciding s) (htrace : t.trace = s.trace)
    (hread : t.readBuf = s.readBuf) (hacks : t.ackWaitList = s.ackWaitList) : w.IsDeciding t where
  length_le := by rw [htrace]; exact h.length_le
  report := by rw [firstReport_congr htrace]; exact h.report
  readBuf := hread.trans h.readBuf
  acks := hacks.trans h.acks

theorem IsDeciding.log (h : w.IsDeciding s) {e : Event} (he : e.report? = none) :
    w.IsDeciding (s.log e) where
  length_le := Nat.le_succ_of_le h.length_le
  report := by rw [firstReport_log h.length_le, h.report, he]; rfl
  readBuf := h.readBuf
  acks := h.acks

theorem IsDeciding.withResponseVersion (h : w.IsDeciding s) (m : MessageRef) (tokenCount : Nat) :
    w.IsDeciding (s.withResponseVersion m tokenCount) := by
  unfold World.withResponseVersion
  split
  next => exact h
  next v _ =>
      have hversion : w.IsDeciding { s with shadowJsonVersionNum := v } := h.congr rfl rfl rfl
      exact hversion.log rfl

theorem IsDeciding.readText (h : w.IsDeciding s) (off : Nat) : s.readText off = w.readText off := by
  rw [World.readText, h.readBuf, World.readText]

theorem IsDeciding.reported (h : w.IsDeciding s) (i : AckIndex) (status : AckStatus) :
    w.HasReported i status (s.log (.enter (.completing i status))) where
  length_le := Nat.le_succ_of_le h.length_le
  report := by rw [firstReport_log h.length_le, h.report]; rfl

theorem HasReported.mono (h : w.HasReported i status s) (hsuffix : s.trace <:+ t.trace) :
    w.HasReported i status t := by
  obtain ⟨newer, hnewer⟩ := hsuffix
  constructor
  · rw [← hnewer, List.length_append]
    exact Nat.le_add_left_of_le h.length_le
  · have hreport := h.report
    unfold firstReport at hreport ⊢
    rw [← hnewer, List.reverse_append, List.drop_append_of_le_length (by simpa using h.length_le),
      List.findSome?_append, hreport]
    rfl

/-- A first report is `good`, and without one no record is freed. -/
structure KeepsTo (w : World) (good : AckIndex → AckStatus → Prop) (s : World) : Prop where
  good_of_report : ∀ i status, w.firstReport s = some (i, status) → good i status
  acks_of_none : w.firstReport s = none → s.ackWaitList = w.ackWaitList

variable {good : AckIndex → AckStatus → Prop} {fuel fuel' : Nat}

theorem IsDeciding.keepsTo (h : w.IsDeciding s) : w.KeepsTo good s where
  good_of_report := by
    intro i status hreport
    rw [h.report] at hreport
    cases hreport
  acks_of_none := fun _ => h.acks

theorem HasReported.keepsTo (h : w.HasReported i status s) (hgood : good i status) :
    w.KeepsTo good s where
  good_of_report := by
    intro i' status' hreport
    rw [h.report] at hreport
    cases hreport
    exact hgood
  acks_of_none := by
    intro hnone
    rw [h.report] at hnone
    cases hnone

/-- Behind its first step a report can do no more than let the trace grow. -/
theorem wp_completeAck_reported (h : w.IsDeciding s) (hgood : good i status) :
    wp (reachingOnly (w.KeepsTo good)) (completeAck fuel (api fuel') i status)
      (fun _ t => w.HasReported i status t) s := by
  have hwithin : (completeAck fuel (api fuel') i status).Within (fun _ => True) _ :=
    coversSteps_suffix.tableWalks.completeAck (coversSteps_suffix.api fuel') i status
  refine wp_act_solo.mpr fun _ => ?_
  refine ⟨(h.reported i status).keepsTo hgood, ?_⟩
  apply Within.wp (hwithin.2 s) (fun _ _ _ _ => trivial) _ _ (fun _ _ => trivial)
    (h.reported i status)
  · intro s t hs hstep _
    exact ⟨(hs.mono hstep).keepsTo hgood, hs.mono hstep⟩
  · intro s t hs heq
    rw [heq]
    exact hs

/-- Nothing has been reported, or what has been is `good`. -/
def IsUnderway (w : World) (good : AckIndex → AckStatus → Prop) (s : World) : Prop :=
  w.IsDeciding s ∨ ∃ i status, good i status ∧ w.HasReported i status s

theorem IsUnderway.keepsTo (h : w.IsUnderway good s) : w.KeepsTo good s := by
  rcases h with h | ⟨i, status, hgood, h⟩
  · exact h.keepsTo
  · exact h.keepsTo hgood

theorem IsUnderway.log_leave (h : w.IsUnderway good s) (f : Frame) (rc : IotError) :
    w.IsUnderway good (s.log (.leave f rc)) := by
  rcases h with h | ⟨i, status, hgood, h⟩
  · exact .inl (h.log rfl)
  · exact .inr ⟨i, status, hgood, h.mono (List.suffix_cons _ _)⟩

/-- Until a record is found nothing changes that decides what is reported. -/
theorem wp_ackStatusBody_reported (h : w.IsDeciding s)
    (hgood : ∀ token, s.ackToken m = some token → ∀ i status, w.Awaits token i →
      AllowsStatus (w.readText m.topicOff) status → good i status) :
    wp (reachingOnly (w.KeepsTo good)) (ackStatusBody fuel (api fuel') m)
      (fun _ t => w.IsUnderway good t) s := by
  refine wp_ackStatusBody (P := w.IsDeciding) (fun _ _ => trivial) (fun t ht => ht.keepsTo) ?_ ?_
    (fun t ht => .inl ht) ?_ h
  · intro t u ht hchange
    have hu : w.IsDeciding u := by
      rw [hchange.1]
      exact ht.congr rfl rfl rfl
    exact ⟨hu.keepsTo, hu⟩
  · intro t tokenCount ht
    have hu := ht.withResponseVersion m tokenCount
    exact ⟨hu.keepsTo, hu⟩
  · intro t token i status ht htoken hawaits hallows
    rw [Awaits, ht.acks] at hawaits
    rw [ht.readText] at hallows
    have hstatus : good i status := hgood token htoken i status hawaits hallows
    apply wp_mono _ (wp_completeAck_reported ht hstatus)
    exact fun _ u hu => .inr ⟨i, status, hstatus, hu⟩

/-- What is reached keeps to what the message allows to report. -/
theorem keepsTo_of_steps {p : M Unit} {t : World}
    (hgood : ∀ token, w.ackToken m = some token → ∀ i status, w.Awaits token i →
      AllowsStatus (w.readText m.topicOff) status → good i status)
    (hsteps : Steps (fun _ _ _ => True) (ackStatusCallback fuel (api fuel') m, w) (p, t)) :
    w.KeepsTo good t := by
  have hstart : w.IsDeciding (w.log (.enter (.ackStatus m))) := (IsDeciding.refl w).log rfl
  have htoken : (w.log (.enter (.ackStatus m))).ackToken m = w.ackToken m :=
    ackToken_congr rfl rfl rfl
  have hwp : wp (reachingOnly (w.KeepsTo good)) (ackStatusCallback fuel (api fuel') m)
      (fun _ _ => True) w := by
    simp only [ackStatusCallback, framedVoid, framed, emit, wp_bind, wp_modify]
    refine ⟨hstart.keepsTo, wp_mono ?_ (wp_ackStatusBody_reported hstart (htoken ▸ hgood))⟩
    intro _ t ht
    exact ⟨(ht.log_leave _ _).keepsTo, trivial⟩
  exact invariant_steps (fun _ _ _ ht => ht) hwp (IsDeciding.refl w).keepsTo hsteps

/-! ## What can be reported -/

/-- The status of some record is reported. -/
def HasTold (w : World) (status : AckStatus) (s : World) : Prop :=
  ∃ i, w.firstReport s = some (i, status)

theorem canReturn_ackStatusOf {text : List UInt8} {Φ : Option AckStatus → World → Prop}
    (hallows : AllowsStatus text status) (h : Φ (some status) s) :
    CanReturn (fun _ _ _ => True) (ackStatusOf text) Φ s := by
  unfold ackStatusOf
  unfold AllowsStatus at hallows
  split
  next haccepted =>
      rw [if_pos haccepted] at hallows
      rw [hallows] at h
      simpa [canReturn_ret] using h
  next haccepted =>
      rw [if_neg haccepted] at hallows
      split
      next hrejected =>
          rw [if_pos hrejected] at hallows
          rw [hallows] at h
          simpa [canReturn_ret] using h
      next hrejected =>
          rw [if_neg hrejected] at hallows
          apply (canReturn_bind _ _ _ _).mpr
          apply (canReturn_query _ _ _).mpr
          cases status with
          | accepted => exact ⟨(2 : UInt32), trivial, by simpa [canReturn_ret] using h⟩
          | rejected => exact ⟨(1 : UInt32), trivial, by simpa [canReturn_ret] using h⟩
          | timeout => exact absurd rfl hallows

/-- A record that waits for the token is found, if none is found before it. -/
theorem reaches_firstOf {token : List UInt8} {records : List AckIndex} (h : w.IsDeciding s)
    (hmem : i ∈ records) (hawaits : w.Awaits token i)
    (hallows : AllowsStatus (w.readText m.topicOff) status) :
    Reaches (fun _ _ _ => True) (firstOf (ackRecord fuel (api fuel') m token) records)
      (w.HasTold status) s := by
  induction records with
  | nil => cases hmem
  | cons j records ih =>
      by_cases hj : w.Awaits token j
      · -- the record is `j` itself
        apply Reaches.bind
        have hcond : (!(s.ackWaitList j).isFree && (s.ackWaitList j).tokenText = token) = true := by
          rw [h.acks]
          simpa [Awaits] using hj
        apply CanReturn.reaches_bind
        apply (canReturn_act _ _ _ _).mpr
        apply (canReturn_ret _ _ _).mpr
        simp only [id_eq, hcond, if_true]
        apply CanReturn.reaches_bind
        apply canReturn_ackStatusOf (h.readText m.topicOff ▸ hallows)
        apply Reaches.bind
        apply reaches_act
        exact reaches_here ⟨j, (h.reported j status).report⟩
      · -- another record, which is passed over
        have hne : j ≠ i := by
          intro heq
          exact hj (heq ▸ hawaits)
        have hrest := ih (List.mem_of_ne_of_mem hne.symm hmem)
        have hcond : (!(s.ackWaitList j).isFree && (s.ackWaitList j).tokenText = token) = false :=
          by
          rw [h.acks]
          simpa [Awaits] using hj
        apply CanReturn.reaches_bind
        apply (canReturn_bind _ _ _ _).mpr
        apply (canReturn_act _ _ _ _).mpr
        apply (canReturn_ret _ _ _).mpr
        simp only [id_eq, hcond]
        exact (canReturn_ret _ _ _).mpr hrest

theorem reaches_ackStatusBody {token : List UInt8} (h : w.IsDeciding s)
    (htoken : s.ackToken m = some token) (hawaits : w.Awaits token i)
    (hallows : AllowsStatus (w.readText m.topicOff) status) :
    Reaches (fun _ _ _ => True) (ackStatusBody fuel (api fuel') m) (w.HasTold status) s := by
  unfold ackStatusBody receiveDocument answerToken
  unfold ackToken at htoken
  split at htoken
  next => cases htoken
  next hfits =>
      obtain ⟨tokenCount, hcount, hclient⟩ := Option.bind_eq_some_iff.mp htoken
      rw [if_neg hfits]
      apply CanReturn.reaches_bind
      simp only [canReturn_bind, canReturn_modify, canReturn_atomically, hcount]
      apply CanReturn.reaches_bind
      apply (canReturn_modify _ _ _).mpr
      apply CanReturn.reaches_bind
      apply (canReturn_atomically _ _ _ _).mpr
      rw [rxClientToken_withResponseVersion, hclient]
      have hreceived : w.IsDeciding (s.withPayload m).withRxTokens := h.congr rfl rfl rfl
      have hversion := hreceived.withResponseVersion m tokenCount
      apply Reaches.bind
      exact reaches_firstOf (hversion.congr rfl rfl rfl) (List.mem_finRange i) hawaits hallows

/-- A record that waits for the token of the message brings about a report with
each status that the words allow. -/
theorem reports_of_awaits {token : List UInt8} (htoken : w.ackToken m = some token)
    (hawaits : w.Awaits token i) (hallows : AllowsStatus (w.readText m.topicOff) status) :
    ∃ j, w.Reports m j status := by
  have hstart : w.IsDeciding (w.log (.enter (.ackStatus m))) := (IsDeciding.refl w).log rfl
  have hbody : Reaches (fun _ _ _ => True) (ackStatusBody 0 (api 0) m) (w.HasTold status)
      (w.log (.enter (.ackStatus m))) :=
    reaches_ackStatusBody hstart ((ackToken_congr rfl rfl rfl).trans htoken) hawaits hallows
  have hcallback : Reaches (fun _ _ _ => True) (ackStatusCallback 0 (api 0) m)
      (w.HasTold status) w := by
    apply Reaches.bind
    apply CanReturn.reaches_bind
    apply (canReturn_modify _ _ _).mpr
    apply Reaches.bind
    exact hbody.bind
  obtain ⟨p, t, hsteps, j, hreport⟩ := hcallback
  exact ⟨j, 0, p, t, hsteps, hreport⟩

/-! ## The statuses are right exactly if the words are those of the topic -/

theorem good_of_reports (good : AckIndex → AckStatus → Prop)
    (hgood : ∀ token, w.ackToken m = some token → ∀ i status,
      w.Awaits token i → AllowsStatus (w.readText m.topicOff) status → good i status)
    (hreports : w.Reports m i status) : good i status := by
  obtain ⟨fuel, p, t, hsteps, hreport⟩ := hreports
  exact (keepsTo_of_steps hgood hsteps).good_of_report i status hreport

/-- A topic has one ending. -/
theorem not_rejected_of_accepted {topic : List UInt8} (haccepted : ascii "/accepted" <:+ topic) :
    ¬ ascii "/rejected" <:+ topic := by
  intro hrejected
  have heq : ascii "/rejected" = ascii "/accepted" :=
    (List.suffix_of_suffix_length_le hrejected haccepted (by decide)).eq_of_length (by decide)
  revert heq
  decide

theorem reportsRightly_of_isUnawaited (h : w.IsUnawaited m) : w.ReportsRightly m := by
  have hgood : ∀ token, w.ackToken m = some token → ∀ i (status : AckStatus),
      w.Awaits token i → AllowsStatus (w.readText m.topicOff) status → False :=
    fun token htoken i _ hawaits _ => h token htoken i hawaits
  constructor
  · exact fun i status hreports => (good_of_reports _ hgood hreports).elim
  · exact fun i status hreports => (good_of_reports _ hgood hreports).elim
  · intro _ _ fuel p t hsteps
    have hkeeps := keepsTo_of_steps hgood hsteps
    have hnone : w.firstReport t = none := by
      cases hreport : w.firstReport t with
      | none => rfl
      | some report => exact (hkeeps.good_of_report report.1 report.2 hreport).elim
    exact ⟨hnone, hkeeps.acks_of_none hnone⟩

/-- The reports of a message are right, whatever its payload and whatever lies
behind it, if and only if no record waits for its token or the string that starts
with its topic tells the status. -/
theorem reportsRightly_iff (w : World) (m : MessageRef) :
    w.ReportsRightly m ↔ w.IsUnawaited m ∨ w.TellsStatus m := by
  constructor
  · intro hrightly
    by_contra hnot
    obtain ⟨hawaited, htells⟩ := not_or.mp hnot
    obtain ⟨token, htoken, i, hawaits⟩ : ∃ token, w.ackToken m = some token ∧
        ∃ i, w.Awaits token i := by simpa [IsUnawaited] using hawaited
    have hreports (status : AckStatus) (hallows : AllowsStatus (w.readText m.topicOff) status) :
        ∃ j, w.Reports m j status := reports_of_awaits htoken hawaits hallows
    apply htells
    by_cases haccepted : ascii "accepted" <:+: w.readText m.topicOff
    · obtain ⟨j, hj⟩ := hreports .accepted (by simp [AllowsStatus, haccepted])
      exact .inl ⟨(hrightly.accepted j _ hj).mp rfl, haccepted⟩
    by_cases hrejected : ascii "rejected" <:+: w.readText m.topicOff
    · obtain ⟨j, hj⟩ := hreports .rejected (by simp [AllowsStatus, haccepted, hrejected])
      exact .inr ⟨(hrightly.rejected j _ hj).mp rfl, hrejected, haccepted⟩
    · -- either status may be reported, and the topic has one ending
      obtain ⟨j, hj⟩ := hreports .accepted (by simp [AllowsStatus, haccepted, hrejected])
      obtain ⟨k, hk⟩ := hreports .rejected (by simp [AllowsStatus, haccepted, hrejected])
      have hending := (hrightly.accepted j _ hj).mp rfl
      exact absurd ((hrightly.rejected k _ hk).mp rfl) (not_rejected_of_accepted hending)
  · rintro (hunawaited | ⟨hending, hword⟩ | ⟨hending, hword, hother⟩)
    · exact reportsRightly_of_isUnawaited hunawaited
    · have hstatus (i : AckIndex) (status : AckStatus) (hreports : w.Reports m i status) :
          status = .accepted :=
        good_of_reports (fun _ status => status = .accepted)
          (fun _ _ _ _ _ hallows => by simpa [AllowsStatus, hword] using hallows) hreports
      have hnot := not_rejected_of_accepted hending
      constructor
      · intro i status hreports
        simp [hstatus i status hreports, hending]
      · intro i status hreports
        simp [hstatus i status hreports, hnot]
      · exact fun hnone => absurd hending hnone
    · have hstatus (i : AckIndex) (status : AckStatus) (hreports : w.Reports m i status) :
          status = .rejected :=
        good_of_reports (fun _ status => status = .rejected)
          (fun _ _ _ _ _ hallows => by simpa [AllowsStatus, hword, hother] using hallows) hreports
      have hnot : ¬ ascii "/accepted" <:+ w.receivedTopic m := fun haccepted =>
        not_rejected_of_accepted haccepted hending
      constructor
      · intro i status hreports
        simp [hstatus i status hreports, hnot]
      · intro i status hreports
        simp [hstatus i status hreports, hending]
      · exact fun _ hnone => absurd hending hnone

theorem not_reportsRightly_of_word {token : List UInt8} (htoken : w.ackToken m = some token)
    (hawaits : w.Awaits token i) (hword : ascii "accepted" <:+: w.readText m.topicOff)
    (hending : ¬ ascii "/accepted" <:+ w.receivedTopic m) : ¬ w.ReportsRightly m := by
  intro hrightly
  have hallows : AllowsStatus (w.readText m.topicOff) .accepted := by simp [AllowsStatus, hword]
  obtain ⟨j, hreports⟩ := reports_of_awaits htoken hawaits hallows
  exact hending ((hrightly.accepted j _ hreports).mp rfl)

end World

/-! ## A rejected request whose message says "accepted" -/

def rejectedGet : Script where
  traffic := [.done .success, .done .success, .done .success,
    sampleMessage "$aws/things/t/shadow/get/rejected"
      "\x7b\"clientToken\":\"c-0\",\"message\":\"not accepted\"\x7d"]
  calls := [some (connectAs "t"), some (.get (some (sampleText "t")) (some 0) 0 4 false),
    some (.yield 0)]
  expired := []

/-- The message that `AckStatusCallback` has just been called with. -/
def Trace.answering : Trace → Option MessageRef
  | .enter (.ackStatus m) :: _ => some m
  | _ => none

/-- The layer when the answer has arrived, before `AckStatusCallback` is called. -/
def rejectedWorld : World := (rejectedGet.reached 6 67).2

def rejectedMessage : MessageRef := ⟨5, 33, 38, 46⟩

theorem not_reportsRightly_rejectedWorld :
    (rejectedGet.reached 6 68).2.trace.answering = some rejectedMessage ∧
      ¬ rejectedWorld.ReportsRightly rejectedMessage := by
  have htoken : rejectedWorld.ackToken rejectedMessage = some (ascii "c-0") := by
    decide +kernel
  have hawaits : rejectedWorld.Awaits (ascii "c-0") ⟨0, by decide⟩ := by
    decide +kernel
  have hword : ascii "accepted" <:+: rejectedWorld.readText rejectedMessage.topicOff := by
    decide +kernel
  have hending : ¬ ascii "/accepted" <:+ rejectedWorld.receivedTopic rejectedMessage := by
    decide +kernel
  exact ⟨by decide +kernel, World.not_reportsRightly_of_word htoken hawaits hword hending⟩

end MqttClient.Shadow
