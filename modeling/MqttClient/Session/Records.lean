import MqttClient.Session.Bystanders

/-! # What is on record of a packet

A packet that was sent is on record with its bytes, and a packet that was read
with its type. A wait that succeeds has read its acknowledgement last, after
everything that handlers did meanwhile.
-/

namespace MqttClient

open Effect Program

/-- The discipline in which everything is allowed and nothing promised. -/
abbrev unrestricted : Discipline World Answer := observed anything fun _ _ => True

/-- A packet has been sent, whole. -/
def Event.isSent : Event → Bool
  | .sent _ => true
  | _ => false

/-- No packet has been sent since. -/
abbrev Unsent (s t : World) : Prop := Adds (·.isSent = false) s t

section Sending

variable {allow : Policy}

theorem wp_quiet_unrestricted {α : Type} {p : M α} (s : World) (h : IsQuiet p) :
    wp (observed allow fun _ _ => True) p (fun _ t => Quiet s t) s :=
  wp_quiet h (fun _ _ _ _ => trivial) (fun _ _ _ _ => trivial) fun _ _ ht => ht

/-- What changes nothing. -/
theorem wp_unchanged {α : Type} {p : M α} (s : World) (h : p.Within (fun q => q.isIo) (· = ·)) :
    wp (observed allow fun _ _ => True) p (fun _ t => t = s) s := by
  apply h.wp (I := (· = s)) (fun _ _ _ _ => trivial) _ _ (fun _ _ => trivial) rfl
  · rintro _ _ rfl rfl _
    exact ⟨trivial, rfl⟩
  · rintro _ _ rfl rfl
    rfl

/-! ## Sending -/

def Event.isWriting : Event → Bool
  | .netWrite _ _ _ => true
  | _ => false

theorem Event.isSent_of_isWriting {e : Event} (h : e.isWriting = true) : e.isSent = false := by
  cases e <;> first | rfl | cases h

/-- Writing to the network, without having sent a whole packet. -/
structure Writes (s t : World) : Prop where
  client : t.client = s.client
  messages : t.messages = s.messages
  trace : Adds (·.isWriting) s t

theorem Writes.refl (s : World) : Writes s s := ⟨rfl, rfl, adds_of_eq rfl⟩

theorem Writes.trans {s t u : World} (h : Writes s t) (h' : Writes t u) : Writes s u :=
  ⟨h'.client.trans h.client, h'.messages.trans h.messages, h.trace.trans h'.trace⟩

theorem wp_onlyWrites {pre : Query → World → Prop} {guar : World → World → Prop}
    {α : Type} {p : M α}
    (s : World) (h : p.Within (fun q => q.isIo) Writes)
    (hpre : ∀ q t, Writes s t → q.isIo → pre q t) (hguar : ∀ t u, Writes s t →
      Writes t u → guar t u) :
    wp (solo pre allow guar) p (fun _ t => Writes s t) s := by
  refine h.wp (fun q t ht hq => hpre q t ht hq) (fun t u ht hu _ => ⟨hguar t u ht hu, ht.trans hu⟩)
    ?_ (fun _ _ => trivial) (.refl s)
  rintro t u ht rfl
  exact ht

theorem Writes.unsent {s t : World} (h : Writes s t) : Unsent s t :=
  h.trace.mono fun _ => Event.isSent_of_isWriting

/-- A packet that has been sent is what the transmit buffer held, and the last
thing on record. -/
theorem wp_internalSendPacket_recorded {pre : Query → World → Prop} {guar : World → World → Prop}
    (fuel length : Nat) (timer : TimerName) (s : World)
    (hpre : ∀ q t, Writes s t → q.isIo → pre q t)
    (hwrites : ∀ t u, Writes s t → Writes t u → guar t u)
    (hsent : ∀ u, Writes s u → guar u (u.log (.sent (s.client.writeBuf.load 0 length)))) :
    wp (solo pre allow guar) (internalSendPacket fuel length timer)
      (fun rc t => (rc = .success → ∃ u, Writes s u ∧
        t = u.log (.sent (s.client.writeBuf.load 0 length))) ∧ (rc ≠ .success → Writes s t)) s := by
  simp only [internalSendPacket, wp_bind, wp_getClient]
  refine ⟨hwrites s s (.refl s) (.refl s), ?_⟩
  split
  next => exact ⟨nofun, fun _ => .refl s⟩
  next =>
    simp only [wp_bind]
    refine wp_mono (fun rc t ht => ?_) (wp_onlyWrites s (within_lockMutex .refl _) hpre hwrites)
    rw [wp_onSuccess]
    refine ⟨fun _ => ?_, fun hrc => ⟨fun h => absurd h hrc, fun _ => ht⟩⟩
    simp only [wp_bind]
    refine wp_mono (fun sent u hu => ?_) (wp_onlyWrites t (Within.loop (within_sendPacketStep .refl
      (fun _ _ _ _ => ⟨rfl, rfl, adds_one rfl rfl⟩) length timer) fuel 0)
        (fun _ _ hu => hpre _ _ (ht.trans hu)) fun _ _ hu hv => hwrites _ _ (ht.trans hu) hv)
    refine wp_mono (fun rc v hv => ?_) (wp_onlyWrites u (within_unlockMutex .refl _)
      (fun _ _ hv => hpre _ _ ((ht.trans hu).trans hv))
        fun _ _ hv hw => hwrites _ _ ((ht.trans hu).trans hv) hw)
    have hall := (ht.trans hu).trans hv
    rw [wp_onSuccess]
    refine ⟨fun _ => ?_, fun hrc => ⟨fun h => absurd h hrc, fun _ => hall⟩⟩
    split
    next =>
      simp only [wp_bind, wp_modify, solo_guar, pure_eq, wp_ret, hall.client]
      exact ⟨hsent v hall, fun _ => ⟨v, hall, rfl⟩, fun h => absurd rfl h⟩
    next => exact ⟨nofun, fun _ => hall⟩

/-- The same where anything may be asked. -/
theorem wp_internalSendPacket_observed {guar : World → World → Prop} (fuel length : Nat)
    (timer : TimerName) (s : World) (hwrites : ∀ t u, Writes s t → Writes t u → guar t u)
    (hsent : ∀ u, Writes s u → guar u (u.log (.sent (s.client.writeBuf.load 0 length)))) :
    wp (observed allow guar) (internalSendPacket fuel length timer)
      (fun rc t => (rc = .success → ∃ u, Writes s u ∧
        t = u.log (.sent (s.client.writeBuf.load 0 length))) ∧ (rc ≠ .success → Writes s t)) s :=
  wp_internalSendPacket_recorded fuel length timer s (fun _ _ _ _ => trivial) hwrites hsent

theorem wp_internalSendPacket_sent (fuel length : Nat) (timer : TimerName) (s : World) :
    wp (observed allow fun _ _ => True) (internalSendPacket fuel length timer)
      (fun rc t => (rc = .success → ∃ u, Writes s u ∧
        t = u.log (.sent (s.client.writeBuf.load 0 length))) ∧ (rc ≠ .success → Writes s t)) s :=
  wp_internalSendPacket_observed fuel length timer s (fun _ _ _ _ => trivial) fun _ _ => trivial

end Sending

/-! ## Reading -/

theorem wp_onlyReads {allow : Policy} {α : Type} {p : M α} (s : World) (h : OnlyReads p) :
    wp (observed allow fun _ _ => True) p (fun _ t => Reads s t) s := by
  refine h.wp (fun _ _ _ _ => trivial) (fun t u ht hu _ => ⟨trivial, ht.trans hu⟩) ?_
    (fun _ _ => trivial) (.refl s)
  rintro t u ht rfl
  exact ht

theorem wp_onlyFetches {pre : Query → World → Prop} {allow : Policy} {guar : World → World → Prop}
    {α : Type} {p : M α} (s : World) (h : OnlyFetches p)
    (hpre : ∀ q t, Fetches s t → q.isIo → pre q t)
    (hguar : ∀ t u, Fetches s t → Fetches t u → guar t u) :
    wp (solo pre allow guar) p (fun _ t => Fetches s t) s := by
  refine h.wp (fun q t ht hq => hpre q t ht hq) (fun t u ht hu _ => ⟨hguar t u ht hu, ht.trans hu⟩)
    ?_ (fun _ _ => trivial) (.refl s)
  rintro t u ht rfl
  exact ht

/-- Bytes have been fetched since `s`, and then the packet has been recorded, if there is one. -/
def Recorded (s t : World) : Except IotError UInt8 → Prop
  | .ok packetType => ∃ u, Fetches s u ∧ t = u.log (.received (MessageType.ofNibble packetType))
  | .error _ => Fetches s t

/-- A packet is put on record when it has been read, and nothing is before. -/
theorem wp_internalReadPacket_recorded {pre : Query → World → Prop} {allow : Policy}
    {guar : World → World → Prop} (fuel : Nat) (s : World)
    (hpre : ∀ q t, Fetches s t → q.isIo → pre q t)
    (hfetches : ∀ t u, Fetches s t → Fetches t u → guar t u)
    (hreceived : ∀ u packetType, Fetches s u → guar u (u.log (.received packetType))) :
    wp (solo pre allow guar) (internalReadPacket fuel) (fun r t => Recorded s t r) s := by
  have hfetch : ∀ {α : Type} {p : M α} {t : World}, Fetches s t → OnlyFetches p →
      wp (solo pre allow guar) p (fun _ u => Fetches s u) t := by
    intro α p t ht hp
    refine wp_mono (fun _ u hu => ht.trans hu) (wp_onlyFetches t hp ?_ ?_)
    · exact fun q u hu => hpre q u (ht.trans hu)
    · exact fun u v hu => hfetches u v (ht.trans hu)
  have hsame : ∀ {t : World}, Fetches s t → guar t t := fun ht => hfetches _ _ ht (.refl _)
  simp only [internalReadPacket, wp_bind, wp_getClient]
  refine ⟨hsame (.refl s), wp_mono (fun _ t ht => ?_)
    (hfetch (.refl s) (onlyFetches_countdown _ _))⟩
  refine wp_mono (fun rc u hu => ?_) (hfetch ht (onlyFetches_netReadToBuffer _ _ _))
  split
  next => exact hu
  next =>
    split
    next => exact hu
    next =>
      simp only [wp_bind]
      refine wp_mono (fun r v hv => ?_) (hfetch hu (onlyFetches_decodePacketRemainingLen fuel))
      split
      next => exact hv
      next remLen =>
        simp only [readPacketOfLength, wp_bind, wp_getClient]
        refine ⟨hsame hv, ?_⟩
        split
        next =>
          simp only [wp_bind, pure_eq, wp_ret]
          exact hfetch hv (Within.loop (onlyFetches_drainStep _ _) fuel _)
        next =>
          simp only [readPacketBody, wp_bind]
          refine wp_mono (fun _ x hx => ?_) (hfetch hv (onlyFetches_withLength _))
          refine wp_mono (fun rc y hy => ?_) (hfetch hx (onlyFetches_readRemaining _ _))
          split
          next =>
            simp only [wp_bind, wp_getClient, wp_emit, pure_eq, wp_ret]
            exact ⟨hsame hy, hreceived y _ hy, y, hy, rfl⟩
          next => exact hy

/-- A packet of this type is the last thing on record since `s`. -/
def JustReceived (packetType : MessageType) (s t : World) : Prop :=
  ∃ u, Quiet s u ∧ u.client = t.client ∧ t.trace = .received packetType :: u.trace

/-- What holds of a packet whose body is read next holds of the packet that is read. -/
theorem wp_internalReadPacket {allow : Policy} {Φ : UInt8 → World → Prop} (fuel : Nat) {s : World}
    (hbody : ∀ remLen t, Reads s t → wp (observed allow fun _ _ => True) (readPacketBody remLen)
      (fun r u => ∀ type, r = .ok type → Φ type u) t) :
    wp (observed allow fun _ _ => True) (internalReadPacket fuel)
      (fun r t => ∀ type, r = .ok type → Φ type t) s := by
  simp only [internalReadPacket, wp_bind, wp_getClient, true_and]
  refine wp_mono (fun _ t ht => ?_) (wp_onlyReads s (onlyReads_countdown _ _))
  refine wp_mono (fun rc u hu => ?_) (wp_onlyReads t (onlyReads_netReadToBuffer _ _ _))
  split
  next => exact nofun
  next =>
    split
    next => exact nofun
    next =>
      simp only [wp_bind]
      refine wp_mono (fun r v hv => ?_) (wp_onlyReads u (onlyReads_decodePacketRemainingLen fuel))
      split
      next => exact nofun
      next remLen =>
        simp only [readPacketOfLength, wp_bind, wp_getClient, true_and]
        split
        next =>
          simp only [wp_bind, pure_eq, wp_ret]
          refine wp_mono (fun _ _ _ => nofun) (wp_onlyReads v
            (Within.loop (onlyReads_drainStep _ _) fuel _))
        next => exact hbody remLen v ((ht.trans hu).trans hv)

theorem wp_internalReadPacket_received (fuel : Nat) (s : World) :
    wp unrestricted (internalReadPacket fuel)
      (fun r t => ∀ type, r = .ok type → JustReceived (MessageType.ofNibble type) s t) s := by
  refine wp_mono (fun r t ht type hr => ?_)
    (wp_internalReadPacket_recorded fuel s (fun _ _ _ _ => trivial) (fun _ _ _ _ => trivial)
      fun _ _ _ => trivial)
  rw [hr] at ht
  obtain ⟨u, hu, rfl⟩ := ht
  exact ⟨u, hu.reads.io.toQuiet, rfl, rfl⟩

/-! ## Waiting for an acknowledgement -/

section Found

variable {allow : Policy} {call : Call → M IotError} {packetType : MessageType}
  {Found : World → Prop}

/-- An acknowledgement is dispatched without a step: what holds when it has been read
holds when the cycle ends. -/
theorem wp_internalCycleRead_found (hack : packetType.isAck = true) (fuel : Nat)
    (timer : TimerName) {s : World}
    (hread : ∀ t, Reads s t → wp (observed allow fun _ _ => True) (internalReadPacket fuel)
      (fun r u => r = .ok packetType.code → Found u) t) :
    wp (observed allow fun _ _ => True) (internalCycleRead fuel call timer)
      (fun r t => r.2 = some packetType.code → Found t) s := by
  simp only [internalCycleRead, wp_bind]
  refine wp_mono (fun threadRc t ht => ?_) (wp_onlyReads s (within_lockMutex .refl _))
  split
  next => exact nofun
  next =>
    simp only [wp_bind]
    refine wp_mono (fun r u hu => ?_) (hread t ht)
    -- giving the mutex back leaves no trace
    apply wp_mono _ (wp_unchanged u (within_unlockMutex (fun _ => rfl) _))
    rintro threadRc v rfl
    split
    next => split <;> exact nofun
    next => exact nofun
    next type =>
      have hfound : some type = some packetType.code → Found v := fun h =>
        hu (congrArg _ (Option.some.inj h))
      split
      next => exact hfound
      next =>
        rw [wp_bind]
        by_cases htype : type = packetType.code
        · rw [htype, dispatchPacket_ack fuel timer hack]
          exact fun _ => hfound (congrArg some htype)
        · apply wp_mono _ ((always_true _).wp (fun _ _ => trivial) (fun _ _ => trivial)
            fun _ => trivial)
          exact fun _ _ _ h => absurd (Option.some.inj h) htype

/-- A wait that succeeds ends with what holds when the awaited packet has been read. -/
theorem wp_internalWaitForRead_found {J : World → Prop} (hack : packetType.isAck = true)
    (fuel : Nat) {s : World}
    (hcycle : ∀ t, J t → wp (observed allow fun _ _ => True) (internalCycleRead fuel call .command)
      (fun r u => J u ∧ (r.2 = some packetType.code → Found u)) t)
    (hs : J (s.log (.enter (.waiting packetType)))) :
    wp (observed allow fun _ _ => True) (internalWaitForRead fuel call packetType)
      (fun rc t => rc = .success →
        ∃ u, Found u ∧ t = u.log (.leave (.waiting packetType) .success)) s := by
  rw [internalWaitForRead, wp_framed]
  refine ⟨trivial, ?_⟩
  simp only [wp_bind]
  refine wp_mono (Φ := fun (r : IotError × UInt8) t => r.2 = packetType.code → Found t)
    (fun r t ht => ?_)
    (wp_loop (I := fun b t => b ≠ packetType.code ∧ J t) (fun _ _ _ => trivial)
      (fun b t ht => ?_) fuel 0 _ ⟨(MessageType.code_ne_zero hack).symm, hs⟩)
  · split
    next => exact ⟨trivial, nofun⟩
    next hcode =>
      refine ⟨trivial, fun hrc => ?_⟩
      -- a success means that the loop has ended with the awaited type
      have htype : r.2 = packetType.code := by
        by_contra hne
        exact hcode ⟨by rw [hrc]; decide, by rw [hrc]; decide, hne⟩
      exact ⟨t, ht htype, by rw [hrc]⟩
  · obtain ⟨hb, hJ⟩ := ht
    simp only [waitForReadStep, wp_bind, wp_hasTimerExpired, true_and]
    intro expired _
    split
    next => exact fun h => absurd h hb
    next =>
      rw [wp_bind]
      refine wp_mono (fun r u hu => ?_) (hcycle t hJ)
      obtain ⟨rc, type⟩ := r
      have hfound : type.getD b = packetType.code → Found u := by
        intro h
        cases type with
        | none => exact absurd h hb
        | some type => exact hu.2 (congrArg some h)
      split
      next hnext => exact ⟨hnext.2, hu.1⟩
      next => exact hfound

end Found

/-- An acknowledgement is on record, and `I` holds of what was there before it. -/
def Consumed (I : World → Prop) (packetType : MessageType) (w : World) : Prop :=
  ∃ newer older, w.trace = newer ++ .received packetType :: older ∧ I { w with trace := older }

section Waiting

variable {call : Call → M IotError} {I : World → Prop} {packetType : MessageType}

/-- An acknowledgement that was read is consumed before anything else happens. -/
theorem JustReceived.consumed {s t : World} (hI : KeptByBystanders (fun _ _ => True) I)
    (h : JustReceived packetType s t) (hs : I s) : Consumed I packetType t := by
  obtain ⟨v, hquiet, hclient, htrace⟩ := h
  refine ⟨[], v.trace, htrace, hI.keep v _ (.of_eq ?_ rfl) ?_⟩
  · rw [hclient]
  · exact hI.keep s v (.of_quiet hquiet) hs

theorem wp_internalCycleRead_consumed (hI : KeptByBystanders (fun _ _ => True) I)
    (hcall : CallsKeep anything (fun _ _ => True) I call) (hack : packetType.isAck = true)
    (fuel : Nat) (timer : TimerName) {s : World} (hs : I s) :
    wp unrestricted (internalCycleRead fuel call timer)
      (fun r t => (I t ∧ t.stack = s.stack) ∧
        (r.2 = some packetType.code → Consumed I packetType t)) s := by
  refine wp_and (keeps_internalCycleRead hI hcall fuel timer s hs)
    (wp_internalCycleRead_found hack fuel timer fun t ht => ?_)
  have hIt : I t := hI.keep s t (.of_quiet ht.io.toQuiet) hs
  refine wp_mono (fun r u hu hr => ?_) (wp_internalReadPacket_received fuel t)
  have hjust := hu _ hr
  rw [MessageType.ofNibble_code] at hjust
  exact hjust.consumed hI hIt

/-- A wait that succeeds has consumed its acknowledgement. -/
theorem wp_internalWaitForRead_consumed (hI : KeptByBystanders (fun _ _ => True) I)
    (hcall : CallsKeep anything (fun _ _ => True) I call) (hack : packetType.isAck = true)
    (fuel : Nat) {s : World} (hs : I s) :
    wp unrestricted (internalWaitForRead fuel call packetType)
      (fun rc t => (I t ∧ t.stack = s.stack) ∧ (rc = .success → Consumed I packetType t)) s := by
  refine wp_and (keeps_internalWaitForRead hI hcall fuel packetType s hs)
    (wp_mono (fun rc t ht hrc => ?_) (wp_internalWaitForRead_found (J := I) hack fuel
      (fun t ht => wp_mono (fun r u hu => ⟨hu.1.1, hu.2⟩)
        (wp_internalCycleRead_consumed hI hcall hack fuel .command ht))
      (hI.keep s _ (.enter s rfl) hs)))
  obtain ⟨u, ⟨newer, older, htrace, hI'⟩, rfl⟩ := ht hrc
  exact ⟨_ :: newer, older, congrArg (_ :: ·) htrace, hI.keep _ _ (.of_eq rfl rfl) hI'⟩

end Waiting

end MqttClient
