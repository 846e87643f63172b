import MqttClient.Session.Nesting

/-! # Until the CONNACK

While a connect waits for its CONNACK it hands every other packet to the
dispatcher. All but PUBLISH packets leave the client as it is.
-/

namespace MqttClient

open Effect Program

/-- The events that have come on record after `before` was. -/
def Trace.since (t before : Trace) : List Event := t.take (t.length - before.length)

theorem Trace.since_append (ev before : Trace) : since (ev ++ before) before = ev := by
  simp [since]

/-- A CONNACK that came after `before` is in the receive buffer, with return code 0. -/
structure World.Accepted (w : World) (before : Trace) : Prop where
  received : .received .connack ∈ w.trace.since before
  accepted : ∃ sessionPresent, deserializeConnack w.client.readBuf w.client.readBufSize =
    .ok (sessionPresent, .mqttConnackConnectionAccepted)

/-- A connect in progress has left the client unconnected unless it has accepted
its CONNACK, and has written nothing but its CONNECT packet. -/
def World.ConnectsSilently (w : World) : Prop :=
  ∀ before, (.connecting, before) ∈ w.trace.opened →
    (w.isClientConnected = true → w.Accepted before) ∧
    ∀ offered rc written, .netWrite offered rc written ∈ w.trace.since before →
      serializeConnect w.client.writeBufSize w.client.options = .ok offered

/-- The wait of a connect for its CONNACK is the innermost thing in progress. -/
def World.inHandshake (w : World) : Bool :=
  match w.stack with
  | .waiting _ :: .connecting :: _ => true
  | _ => false

/-- A connect is the innermost thing in progress. -/
def World.inConnect (w : World) : Bool :=
  match w.stack with
  | .connecting :: _ => true
  | _ => false

/-- The body of a packet that is read now makes it a PUBLISH that can be taken apart. -/
def World.completesPublish (w : World) (bytes : List UInt8) : Bool :=
  (deserializePublish
    (w.client.readBuf.store (1 + (writeLenToBuffer bytes.length).length) bytes)
    w.client.readBufSize).isOk

/-- No PUBLISH comes before the CONNACK, and a write that succeeds during a
connect takes all it is offered, as the TLS layer's does. -/
def quietHandshake : (q : Query) → World → Answer q → Bool := fun q =>
  match q with
  | .netRead .body n => fun w (r : ReadResult n) =>
      !(w.inHandshake && r.rc = .success && w.completesPublish r.bytes)
  | .netWrite bytes => fun w (r : WriteResult bytes.length) =>
      !(w.inConnect && r.rc = .success && r.written ≠ bytes.length)
  | _ => fun _ _ => true

namespace Handshake

abbrev policy : Policy := fun q w a => quietHandshake q w a = true

abbrev discipline : Discipline World Answer :=
  solo (fun _ _ => True) policy fun _ t => t.ConnectsSilently

/-- No connect is in progress. -/
def Outside (w : World) : Prop := .connecting ∉ w.stack

/-- Where no connect is in progress, nothing is asked of the world. -/
theorem Outside.connectsSilently {w : World} (h : Outside w) : w.ConnectsSilently := by
  intro before hopened
  refine absurd ?_ h
  rw [World.stack, ← Trace.map_fst_opened]
  exact List.mem_map.mpr ⟨_, hopened, rfl⟩

theorem Outside.of_extends {s t : World} (h : Extends s t) (hs : Outside s) : Outside t := by
  rw [Outside, h.stack]
  exact hs

theorem steady : Steady (fun _ _ => True) (fun _ t => t.ConnectsSilently) Outside Extends
    (· ≠ .connecting) where
  refl := .refl
  trans _ _ _ := .trans
  pre _ _ _ _ := trivial
  still s t hs h :=
    have ht := Outside.of_extends h.extends hs
    ⟨ht.connectsSilently, ht, h.extends⟩
  enter f s hf hs := by
    have henter : Outside (s.log (.enter f)) := by
      intro hmem
      rcases List.mem_cons.mp hmem with heq | hmem
      · exact hf heq.symm
      · exact hs hmem
    exact ⟨henter.connectsSilently, henter⟩
  leave f rc s t _ hs _ h := by
    have hleave := Outside.of_extends (h.leave rc) hs
    exact ⟨hleave.connectsSilently, hleave, h.leave rc⟩

/-! ## A connect in progress -/

/-- The connect that began at `before` is on its way. -/
structure Shaking (before : Trace) (w : World) : Prop where
  state : w.client.clientState = .connecting
  opened : ∀ before', (.connecting, before') ∈ w.trace.opened → before' = before
  writes : ∃ ev, w.trace = ev ++ before ∧ ∀ offered rc written, .netWrite offered rc written ∈ ev →
    serializeConnect w.client.writeBufSize w.client.options = .ok offered

variable {before : Trace}

/-- Within a connect, only the CONNECT packet has been written so far. -/
theorem Shaking.silent {w : World} (h : Shaking before w) : w.ConnectsSilently := by
  intro before' hopened
  cases h.opened before' hopened
  refine ⟨fun hconnected => ?_, ?_⟩
  · rw [World.isClientConnected, h.state] at hconnected
    cases hconnected
  · obtain ⟨ev, htrace, hwrites⟩ := h.writes
    rw [htrace, Trace.since_append]
    exact hwrites

/-- Everything but writing leaves a connect on its way. -/
theorem Shaking.adds {s t : World} (h : Shaking before s)
    (hstate : t.client.clientState = s.client.clientState)
    (hsize : t.client.writeBufSize = s.client.writeBufSize)
    (hoptions : t.client.options = s.client.options)
    (htrace : Adds (fun e => e.isInner = true ∧ ∀ offered rc n, e ≠ .netWrite offered rc n) s t) :
    Shaking before t := by
  obtain ⟨ev, hev, hinner⟩ := htrace
  obtain ⟨ev', hev', hwrites⟩ := h.writes
  refine ⟨hstate.trans h.state, ?_, ev ++ ev', ?_, fun offered rc n hmem => ?_⟩
  · rw [hev, Trace.opened_append fun e he => (hinner e he).1]
    exact h.opened
  · rw [hev, hev', List.append_assoc]
  · rw [hsize, hoptions]
    rcases List.mem_append.mp hmem with hmem | hmem
    · exact absurd rfl ((hinner _ hmem).2 offered rc n)
    · exact hwrites offered rc n hmem

/-- Reading goes on with the handshake. -/
theorem Shaking.reads {s t : World} (h : Shaking before s) (hreads : Reads s t) :
    Shaking before t := by
  refine h.adds ?_ ?_ ?_ (hreads.trace.mono fun e he => ⟨?_, ?_⟩)
  · rw [hreads.client]
  · rw [hreads.client]
  · rw [hreads.client]
  · exact Event.isInner_of_isIo (Event.isIo_of_isReading he)
  · rintro offered rc n rfl
    cases he

/-- A program that only reads keeps the silence. -/
theorem wp_onlyReads {α : Type} {p : M α} {s : World} (h : OnlyReads p) (hs : Shaking before s) :
    wp discipline p (fun _ t => Reads s t) s := by
  apply wp_mono _ (h.wp (I := fun t => Reads s t) (fun _ _ _ _ => trivial) _ _
    (fun _ _ => trivial) (.refl s))
  · exact fun _ _ ht => ht
  · exact fun t u ht hu _ => ⟨(hs.reads (ht.trans hu)).silent, ht.trans hu⟩
  · rintro t u ht rfl
    exact ht

/-- What changes nothing. -/
theorem wp_idle {α : Type} {p : M α} {s : World} (h : p.Within (fun q => q.isIo) (· = ·))
    (hs : Shaking before s) : wp discipline p (fun _ t => s = t) s := by
  apply h.wp (I := (s = ·)) (fun _ _ _ _ => trivial) _ _ (fun _ _ => trivial) rfl
  · rintro _ _ rfl rfl _
    exact ⟨hs.silent, rfl⟩
  · rintro _ _ rfl rfl
    rfl

/-! ### Reading -/

/-- A packet without a body is no PUBLISH. -/
theorem deserializePublish_of_empty (buf : Memory) (rxBufLen : Nat) :
    (deserializePublish (buf.store 1 (writeLenToBuffer 0)) rxBufLen).isOk = false := by
  have hlen : decodeRemainingLengthFromBuffer (buf.store 1 (writeLenToBuffer 0)) 1 = .ok (0, 1) :=
    by
    simp [decodeRemainingLengthFromBuffer, decodeLenLoop, maxNoOfRemainingLengthBytes, Memory.store,
      writeLenToBuffer, writeLenLoop]
  unfold deserializePublish
  split
  · rfl
  · simp only [hlen]
    split <;> rfl

/-- The last packet read is of this type, and cannot be taken apart as a PUBLISH. -/
structure ReadSilently (type : UInt8) (s t : World) : Prop where
  received : ∃ older, t.trace = .received (MessageType.ofNibble type) :: older ∧ s.trace <:+ older
  malformed : (deserializePublish t.client.readBuf t.client.readBufSize).isOk = false

/-- A packet that is read before the CONNACK is no PUBLISH. -/
theorem wp_readPacketBody (remLen : Nat) {s : World} (hs : Shaking before s)
    (hshake : s.inHandshake = true) :
    wp discipline (readPacketBody remLen)
      (fun r t => Reads s t ∧ ∀ type, r = .ok type → ReadSilently type s t) s := by
  let field := writeLenToBuffer remLen
  let u := s.withLength field
  have hu : Reads s u := ⟨rfl, rfl, adds_one rfl rfl⟩
  have hshaking := hs.reads hu
  simp only [readPacketBody, wp_bind, wp_modify, solo_guar]
  refine ⟨hshaking.silent, ?_⟩
  -- what comes in during a handshake cannot be taken for a PUBLISH
  have hremaining : wp discipline (readRemaining (1 + field.length) remLen)
      (fun rc t => Reads u t ∧
        (rc = .success →
          (deserializePublish t.client.readBuf t.client.readBufSize).isOk = false)) u := by
    unfold readRemaining
    split
    next hpos =>
      simp only [netReadToBuffer, wp_bind, wp_query, solo_pre, solo_allow, wp_modify, solo_guar,
        true_and, pure_eq, wp_ret]
      intro r hr
      have hread : Reads u (u.filled .body (1 + field.length) r) :=
        ⟨rfl, rfl, adds_two rfl rfl rfl⟩
      refine ⟨(hshaking.reads hread).silent, hread, fun hrc => ?_⟩
      have hlength := ReadResult.length_bytes_of_success hrc
      have hshake' : u.inHandshake = true := hshake
      have hmalformed : u.completesPublish r.bytes = false := by
        simpa [policy, quietHandshake, hshake', hrc] using hr
      rw [World.completesPublish, hlength] at hmalformed
      exact hmalformed
    next hzero =>
      -- without a body, there is nothing to take apart
      have hzero' : remLen = 0 := Nat.eq_zero_of_not_pos hzero
      refine ⟨.refl u, fun _ => ?_⟩
      simp only [u, field, hzero', World.withLength]
      exact deserializePublish_of_empty _ _
  apply wp_mono _ hremaining
  intro rc t ht
  have hreads : Reads s t := hu.trans ht.1
  split
  next hrc =>
    have hreceived :
      Reads t (t.log (.received (MessageType.ofNibble (headerType (t.client.readBuf 0))))) :=
      ⟨rfl, rfl, adds_one rfl rfl⟩
    simp only [wp_bind, wp_getClient, wp_emit, pure_eq, wp_ret]
    refine ⟨(hs.reads hreads).silent, (hs.reads (hreads.trans hreceived)).silent,
      hreads.trans hreceived, ?_⟩
    rintro type htype
    cases htype
    refine ⟨⟨t.trace, rfl, ?_⟩, ht.2 hrc⟩
    obtain ⟨ev, htrace, -⟩ := hreads.trace
    exact ⟨ev, htrace.symm⟩
  next => exact ⟨hreads, nofun⟩

/-- Reading leaves the calls in progress alone. -/
theorem inHandshake_of_reads {s t : World} (h : Reads s t) : t.inHandshake = s.inHandshake := by
  simp only [World.inHandshake, h.io.stack_eq]

/-- A packet that is read during a handshake is recorded, and is no PUBLISH. -/
theorem wp_internalReadPacket (fuel : Nat) {s : World} (hs : Shaking before s)
    (hshake : s.inHandshake = true) :
    wp discipline (internalReadPacket fuel)
      (fun r t => Reads s t ∧ ∀ type, r = .ok type → ReadSilently type s t) s := by
  simp only [internalReadPacket, wp_bind, wp_getClient]
  refine ⟨hs.silent, ?_⟩
  apply wp_mono _ (wp_onlyReads (onlyReads_countdown _ _) hs)
  intro _ t ht
  apply wp_mono _ (wp_onlyReads (onlyReads_netReadToBuffer _ _ _) (hs.reads ht))
  intro rc u hu
  have hu' : Reads s u := ht.trans hu
  split
  next => exact ⟨hu', nofun⟩
  next =>
    split
    next => exact ⟨hu', nofun⟩
    next =>
      rw [wp_bind]
      apply wp_mono _ (wp_onlyReads (onlyReads_decodePacketRemainingLen fuel) (hs.reads hu'))
      intro r v hv
      have hv' : Reads s v := hu'.trans hv
      have hshaking := hs.reads hv'
      split
      next => exact ⟨hv', nofun⟩
      next remLen =>
        simp only [readPacketOfLength, wp_bind, wp_getClient]
        refine ⟨hshaking.silent, ?_⟩
        split
        next =>
          rw [wp_bind]
          apply wp_mono _ (wp_onlyReads (Within.loop (onlyReads_drainStep _ _) fuel _) hshaking)
          exact fun _ x hx => ⟨hv'.trans hx, nofun⟩
        next =>
          apply wp_mono _
            (wp_readPacketBody remLen hshaking ((inHandshake_of_reads hv').trans hshake))
          intro r x hx
          -- what has been read lies behind `s`
          refine ⟨hv'.trans hx.1, fun type htype => ?_⟩
          obtain ⟨⟨older, htrace, hsuffix⟩, hmalformed⟩ := hx.2 type htype
          obtain ⟨ev, hev, -⟩ := hv'.trace
          exact ⟨⟨older, htrace, List.IsSuffix.trans ⟨ev, hev.symm⟩ hsuffix⟩, hmalformed⟩

/-! ### Waiting -/

/-- A CONNACK has come since `before`. -/
def Received (before : Trace) (w : World) : Prop :=
  ∃ older, .received .connack :: older <:+ w.trace ∧ before <:+ older

theorem Received.of_extends {s t : World} (h : Received before s) (hst : Extends s t) :
    Received before t := by
  obtain ⟨older, hreceived, hbefore⟩ := h
  exact ⟨older, hreceived.trans hst.trace, hbefore⟩

/-- The CONNACK has come since the connect began. -/
theorem Received.mem_since {w : World} (h : Received before w) :
    .received .connack ∈ w.trace.since before := by
  obtain ⟨older, ⟨newer, htrace⟩, ev, rfl⟩ := h
  rw [← htrace, ← List.cons_append, ← List.append_assoc, Trace.since_append]
  simp

/-- A connect on its way, in the same calls as before. -/
structure Continues (before : Trace) (s t : World) : Prop where
  shaking : Shaking before t
  «extends» : Extends s t

theorem Continues.refl {s : World} (h : Shaking before s) : Continues before s s := ⟨h, .refl s⟩

theorem Continues.trans {s t u : World} (h : Continues before s t) (h' : Continues before t u) :
    Continues before s u := ⟨h'.shaking, h.extends.trans h'.extends⟩

theorem Continues.reads {s t : World} (h : Shaking before s) (hst : Reads s t) :
    Continues before s t := ⟨h.reads hst, hst.io.extends⟩

/-- A change of the client's own data. -/
theorem Continues.modify {s : World} {f : Client → Client} (h : Shaking before s)
    (hstate : (f s.client).clientState = s.client.clientState)
    (hsize : (f s.client).writeBufSize = s.client.writeBufSize)
    (hoptions : (f s.client).options = s.client.options) : Continues before s (s.onClient f) :=
  ⟨h.adds hstate hsize hoptions (adds_of_eq rfl), ⟨List.suffix_refl _, rfl⟩⟩

variable {call : Call → M IotError}

/-- A packet that is no PUBLISH leaves the connect on its way. -/
theorem wp_dispatchPacket (fuel : Nat) (timer : TimerName) (packetType : UInt8) {s : World}
    (hs : Shaking before s)
    (hmalformed : (deserializePublish s.client.readBuf s.client.readBufSize).isOk = false) :
    wp discipline (dispatchPacket fuel call timer packetType)
      (fun _ t => Continues before s t) s := by
  unfold dispatchPacket
  split
  case h_5 =>
    simp only [internalHandlePublish, wp_bind, wp_getClient]
    refine ⟨hs.silent, ?_⟩
    split
    next => exact .refl hs
    next hok =>
      rw [hok] at hmalformed
      cases hmalformed
  case h_8 =>
    have hmodify :=
      Continues.modify (f := fun c => { c with isPingOutstanding := false }) hs rfl rfl rfl
    simp only [wp_bind, wp_modifyClient, wp_getClient]
    refine ⟨hmodify.shaking.silent, hmodify.shaking.silent, ?_⟩
    apply wp_mono _ (wp_onlyReads (onlyReads_countdown _ _) hmodify.shaking)
    exact fun _ t ht => hmodify.trans (.reads hmodify.shaking ht)
  all_goals exact .refl hs

/-- A cycle of reading hands nothing to the application. -/
theorem wp_internalCycleRead (fuel : Nat) (timer : TimerName) {s : World} (hs : Shaking before s)
    (hshake : s.inHandshake = true) :
    wp discipline (internalCycleRead fuel call timer)
      (fun r t => Continues before s t ∧
        (r.2 = some MessageType.connack.code → Received before t)) s := by
  rw [internalCycleRead, wp_bind]
  apply wp_mono _ (wp_onlyReads (within_lockMutex .refl _) hs)
  intro threadRc t ht
  split
  next => exact ⟨.reads hs ht, nofun⟩
  next =>
    rw [wp_bind]
    have hshaking := hs.reads ht
    apply wp_mono _ (wp_internalReadPacket fuel hshaking ((inHandshake_of_reads ht).trans hshake))
    intro r u hu
    rw [wp_bind]
    apply wp_mono _ (wp_idle (within_unlockMutex (fun _ => rfl) _) (hshaking.reads hu.1))
    rintro threadRc _ rfl
    have hreads : Reads s u := ht.trans hu.1
    split
    next => split <;> exact ⟨.reads hs hreads, nofun⟩
    next => exact ⟨.reads hs hreads, nofun⟩
    next type =>
      obtain ⟨⟨older, htrace, hsuffix⟩, hmalformed⟩ := hu.2 type rfl
      have hreceived : type = MessageType.connack.code → Received before u := by
        rintro rfl
        obtain ⟨ev, hev, -⟩ := hshaking.writes
        refine ⟨older, ?_, List.IsSuffix.trans ⟨ev, hev.symm⟩ hsuffix⟩
        rw [htrace]
        exact List.suffix_refl _
      split
      next => exact ⟨.reads hs hreads, fun h => hreceived (Option.some.inj h)⟩
      next =>
        rw [wp_bind]
        apply wp_mono _ (wp_dispatchPacket fuel timer type (hs.reads hreads) hmalformed)
        intro rc x hx
        refine ⟨(Continues.reads hs hreads).trans hx, fun h => ?_⟩
        exact (hreceived (Option.some.inj h)).of_extends hx.extends

theorem Shaking.enter {s : World} {f : Frame} (h : Shaking before s) (hf : f ≠ .connecting) :
    Shaking before (s.log (.enter f)) := by
  obtain ⟨ev, htrace, hwrites⟩ := h.writes
  refine ⟨h.state, fun before' hmem => ?_, .enter f :: ev, congrArg (_ :: ·) htrace, ?_⟩
  · rcases List.mem_cons.mp hmem with heq | hmem
    · cases heq
      exact absurd rfl hf
    · exact h.opened before' hmem
  · intro offered rc n hmem
    exact hwrites offered rc n ((List.mem_cons.mp hmem).resolve_left nofun)

theorem Shaking.leave {s t : World} {f : Frame} (rc : IotError) (hs : Shaking before s)
    (h : Continues before (s.log (.enter f)) t) : Continues before s (t.log (.leave f rc)) := by
  obtain ⟨ev, htrace, hwrites⟩ := h.shaking.writes
  have hextends := h.extends.leave rc
  refine ⟨⟨h.shaking.state, fun before' hmem => ?_, .leave f rc :: ev, congrArg
    (_ :: ·) htrace, ?_⟩, hextends⟩
  · rw [hextends.opened] at hmem
    exact hs.opened before' hmem
  · intro offered rc n hmem
    exact hwrites offered rc n ((List.mem_cons.mp hmem).resolve_left nofun)

/-- A wait that succeeds has read a CONNACK. -/
theorem wp_internalWaitForRead (fuel : Nat) {s : World} (hs : Shaking before s)
    (hconnect : s.inConnect = true) :
    wp discipline (internalWaitForRead fuel call .connack)
      (fun rc t => Continues before s t ∧ (rc = .success → Received before t)) s := by
  let s' := s.log (.enter (.waiting .connack))
  have hs' : Shaking before s' := hs.enter nofun
  have hshake : s'.inHandshake = true := by
    rw [World.inConnect] at hconnect
    rw [World.inHandshake, World.stack_log_enter]
    split at hconnect
    next hstack => rw [hstack]
    next => cases hconnect
  rw [internalWaitForRead, wp_framed]
  refine ⟨hs'.silent, ?_⟩
  simp only [wp_bind]
  -- what holds when the loop ends
  apply wp_mono (Φ := fun (r : IotError × UInt8) t => Continues before s' t ∧
    (r.2 = MessageType.connack.code → Received before t))
  · intro r t ht
    have hleave : ∀ rc, Continues before s (t.log (.leave (.waiting .connack) rc)) := fun rc =>
      hs.leave rc ht.1
    split
    next => exact ⟨(hleave _).shaking.silent, hleave _, nofun⟩
    next hcode =>
      refine ⟨(hleave _).shaking.silent, hleave _, fun hrc => ?_⟩
      have htype : r.2 = MessageType.connack.code := by
        by_contra hne
        exact hcode ⟨by rw [hrc]; decide, by rw [hrc]; decide, hne⟩
      obtain ⟨older, hreceived, hbefore⟩ := ht.2 htype
      exact ⟨older, hreceived.trans (List.suffix_cons _ _), hbefore⟩
  · -- no CONNACK has come as long as the loop goes on
    refine wp_loop (I := fun b t => b ≠ MessageType.connack.code ∧ Continues before s' t)
      (fun _ _ _ => trivial) (fun b t ht => ?_) fuel 0 s' ⟨nofun, .refl hs'⟩
    simp only [waitForReadStep, wp_bind, wp_hasTimerExpired, true_and]
    intro expired _
    split
    next => exact ⟨ht.2, fun h => absurd h ht.1⟩
    next =>
      rw [wp_bind]
      have hshake' : t.inHandshake = true := by
        rw [World.inHandshake, ht.2.extends.stack]
        exact hshake
      apply wp_mono _ (wp_internalCycleRead fuel .command ht.2.shaking hshake')
      intro r u hu
      have hcontinues := ht.2.trans hu.1
      split
      next hnext => exact ⟨hnext.2, hcontinues⟩
      next =>
        refine ⟨hcontinues, fun h => hu.2 ?_⟩
        cases htype : r.2 with
        | none =>
            rw [htype] at h
            exact absurd h ht.1
        | some type =>
            rw [htype] at h
            exact congrArg some h

/-! ### Sending the CONNECT packet -/

/-- An event is fine that is no write of another packet. -/
theorem Shaking.log {s : World} {e : Event} (h : Shaking before s) (he : e.isInner = true)
    (hwrite : ∀ offered rc n, e = .netWrite offered rc n →
      serializeConnect s.client.writeBufSize s.client.options = .ok offered) :
    Continues before s (s.log e) := by
  obtain ⟨ev, htrace, hwrites⟩ := h.writes
  have hextends := Extends.log s he
  refine ⟨⟨h.state, ?_, e :: ev, congrArg (e :: ·) htrace, fun offered rc n hmem => ?_⟩, hextends⟩
  · rw [hextends.opened]
    exact h.opened
  · rcases List.mem_cons.mp hmem with heq | hmem
    · exact hwrite offered rc n heq.symm
    · exact hwrites offered rc n hmem

theorem Continues.inConnect {s t : World} (h : Continues before s t) (hs : s.inConnect = true) :
    t.inConnect = true := by
  rw [World.inConnect, h.extends.stack]
  exact hs

/-- Each write offers the CONNECT packet. -/
theorem wp_sendPacketStep {packet : List UInt8} {s : World}
    (hpacket : serializeConnect s.client.writeBufSize s.client.options = .ok packet)
    (hload : s.client.writeBuf.load 0 packet.length = packet) (hconnect : s.inConnect = true)
    {sent : Nat} {t : World} (hsent : sent = 0 ∨ sent = packet.length)
    (hclient : t.client = s.client) (ht : Continues before s t) :
    wp discipline (sendPacketStep packet.length .command sent)
      (fun r u => u.client = s.client ∧ Continues before s u ∧
        ∀ sent', r = .inl sent' → sent' = packet.length) t := by
  unfold sendPacketStep
  split
  next hlt =>
    have hzero : sent = 0 := hsent.resolve_right (Nat.ne_of_lt hlt)
    simp only [wp_bind, wp_hasTimerExpired, true_and]
    intro expired _
    split
    next => exact ⟨hclient, ht, nofun⟩
    next =>
      simp only [netWrite, wp_bind, wp_getClient, wp_query, wp_emit, solo_pre, solo_allow, true_and,
        pure_eq, wp_ret, hzero, hclient, hload]
      refine ⟨ht.shaking.silent, fun r hr => ?_⟩
      have hlogged : Continues before t (t.log (.netWrite packet r.rc r.written)) := by
        refine ht.shaking.log rfl fun offered rc n heq => ?_
        cases heq
        rw [hclient]
        exact hpacket
      refine ⟨hlogged.shaking.silent, ?_⟩
      split
      next hrc =>
        refine ⟨hclient, ht.trans hlogged, fun sent' h => ?_⟩
        cases h
        have hall : r.written = packet.length := by
          simpa [policy, quietHandshake, ht.inConnect hconnect, hrc] using hr
        rw [Nat.zero_add, hall]
      next => exact ⟨hclient, ht.trans hlogged, nofun⟩
  next => exact ⟨hclient, ht, nofun⟩

/-- The CONNECT packet is written once, as a whole. -/
theorem wp_internalSendPacket (fuel : Nat) {packet : List UInt8} {s : World}
    (hs : Shaking before s)
    (hpacket : serializeConnect s.client.writeBufSize s.client.options = .ok packet)
    (hload : s.client.writeBuf.load 0 packet.length = packet) (hconnect : s.inConnect = true) :
    wp discipline (internalSendPacket fuel packet.length .command)
      (fun _ t => Continues before s t) s := by
  simp only [internalSendPacket, wp_bind, wp_getClient]
  refine ⟨hs.silent, ?_⟩
  split
  next => exact .refl hs
  next =>
    rw [wp_bind]
    apply wp_mono _ (wp_idle (within_lockMutex (fun _ => rfl) _) hs)
    rintro rc _ rfl
    rw [wp_onSuccess]
    refine ⟨fun _ => ?_, fun _ => .refl hs⟩
    rw [wp_bind]
    apply wp_mono (Φ := fun _ t => Continues before s t)
    · intro sent t ht
      rw [wp_bind]
      apply wp_mono _ (wp_idle (within_unlockMutex (fun _ => rfl) _) ht.shaking)
      rintro rc _ rfl
      rw [wp_onSuccess]
      refine ⟨fun _ => ?_, fun _ => ht⟩
      split
      next =>
        simp only [wp_bind, wp_modify, solo_guar, pure_eq, wp_ret]
        have hlogged :=
          ht.shaking.log (e := .sent (t.client.writeBuf.load 0 packet.length)) rfl nofun
        exact ⟨hlogged.shaking.silent, ht.trans hlogged⟩
      next => exact ht
    · -- after a write that succeeded nothing is left to send
      refine wp_loop (I := fun sent t => (sent = 0 ∨ sent = packet.length) ∧
        t.client = s.client ∧ Continues before s t) (fun _ _ _ => trivial) (fun sent t ht => ?_)
        fuel 0 s ⟨.inl rfl, rfl, .refl hs⟩
      apply wp_mono _ (wp_sendPacketStep hpacket hload hconnect ht.1 ht.2.1 ht.2.2)
      intro r u hu
      cases r with
      | inl sent' => exact ⟨.inr (hu.2.2 sent' rfl), hu.1, hu.2.1⟩
      | inr sent' => exact hu.2.1

/-! ### The whole connect -/

/-- A handshake that succeeds has received an accepting CONNACK. -/
theorem wp_handshake (fuel : Nat) {s : World} (hs : Shaking before s)
    (hconnect : s.inConnect = true) :
    wp discipline (handshake fuel call)
      (fun rc t => Continues before s t ∧ (rc = .success → t.Accepted before)) s := by
  simp only [handshake, wp_bind, wp_getClient]
  refine ⟨hs.silent, ?_⟩
  apply wp_mono _ (wp_onlyReads (onlyReads_countdown _ _) hs)
  intro _ t ht
  have htime := Continues.reads hs ht
  have hkeep := htime.trans (.modify (f := fun c =>
    { c with keepAliveInterval := c.options.keepAliveIntervalInSec }) htime.shaking rfl rfl rfl)
  rw [wp_modifyClient]
  refine ⟨hkeep.shaking.silent, wp_serialized hkeep.shaking.silent (fun rc hrc => ?_)
    fun packet hpacket => ?_⟩
  · exact ⟨hkeep, fun h => absurd h ((reportsErrors_serializeConnect _ _).ne_success hrc)⟩
  · have hstored := hkeep.trans (.modify (f := fun c =>
      { c with writeBuf := c.writeBuf.store 0 packet }) hkeep.shaking rfl rfl rfl)
    refine ⟨hstored.shaking.silent, ?_⟩
    rw [wp_bind]
    apply wp_mono _ (wp_internalSendPacket fuel hstored.shaking hpacket
      (Memory.load_store t.client.writeBuf 0 packet) (hstored.inConnect hconnect))
    intro rc u hu
    have hsent := hstored.trans hu
    rw [wp_onSuccess]
    refine ⟨fun _ => ?_, fun hrc => ⟨hsent, fun h => absurd h hrc⟩⟩
    rw [wp_bind]
    apply wp_mono _ (wp_internalWaitForRead fuel hsent.shaking (hsent.inConnect hconnect))
    intro rc v hv
    have hread := hsent.trans hv.1
    rw [wp_onSuccess]
    refine ⟨fun hrc => ?_, fun hrc => ⟨hread, fun h => absurd h hrc⟩⟩
    simp only [wp_bind, wp_getClient]
    refine ⟨hread.shaking.silent, ?_⟩
    split
    next hrc' =>
      exact ⟨hread, fun h => absurd h ((reportsErrors_deserializeConnack _ _).ne_success hrc')⟩
    next sessionPresent connackRc hconnack =>
      split
      next hcode =>
        refine ⟨hread, fun h => ?_⟩
        have := deserializeConnack_ne_success hconnack
        exact absurd h this
      next hcode =>
        have hping := Continues.modify (f := fun c => { c with isPingOutstanding := false })
          hread.shaking rfl rfl rfl
        simp only [wp_bind, wp_modifyClient]
        refine ⟨hping.shaking.silent, ?_⟩
        have hclock := hping.shaking.log (e := .countdown .ping v.client.keepAliveInterval.toUInt32)
          rfl nofun
        simp only [countdown, wp_emit, pure_eq, wp_ret]
        -- it was received while the handshake ran, and says that the connection is accepted
        refine ⟨hclock.shaking.silent, (hread.trans hping).trans hclock, fun _ => ⟨?_, ?_⟩⟩
        · exact ((hv.2 hrc).of_extends (hping.trans hclock).extends).mem_since
        · rw [not_not.mp hcode] at hconnack
          exact ⟨sessionPresent, hconnack⟩

/-- So has the connect around it. -/
theorem wp_internalConnect (fuel : Nat) (params : Option ConnectParams) {s : World}
    (hs : Shaking before s) (htrace : s.trace = .enter .connecting :: before)
    (hconnect : s.inConnect = true) :
    wp discipline (internalConnect fuel call params)
      (fun rc t => Continues before s t ∧ (rc = .success → t.Accepted before)) s := by
  have happly : wp discipline (applyConnectParams params) (fun _ t => Continues before s t) s := by
    cases params with
    | none => exact .refl hs
    | some params =>
        have hcontinues : Continues before s (s.onClient (·.withConnectParams params)) := by
          -- nothing has been written yet
          refine ⟨⟨hs.state, hs.opened, [.enter .connecting], htrace, ?_⟩, List.suffix_refl _, rfl⟩
          intro offered rc n hmem
          cases List.mem_singleton.mp hmem
        rw [applyConnectParams, wp_modifyClient]
        exact ⟨hcontinues.shaking.silent, hcontinues⟩
  rw [internalConnect, wp_bind]
  apply wp_mono _ happly
  intro _ t ht
  simp only [wp_bind, wp_netConnect, true_and]
  intro rc _
  have hopen := ht.trans (ht.shaking.log (e := .netConnect rc) rfl nofun)
  rw [wp_onSuccess]
  refine ⟨hopen.shaking.silent, fun _ => ?_, fun hrc => ⟨hopen, fun h => absurd h hrc⟩⟩
  apply wp_mono _ (wp_handshake fuel hopen.shaking (hopen.inConnect hconnect))
  exact fun _ u hu => ⟨hopen.trans hu.1, hu.2⟩

/-- The state that a connect leaves is connected only if it has accepted its CONNACK. -/
theorem Shaking.granted_silent {w : World} {change : StateChange} {new : ClientState}
    (h : Shaking before w) (haccepted : new.isConnected = true → w.Accepted before) :
    (w.granted change .connecting new).ConnectsSilently := by
  intro before' hopened
  cases h.opened before' hopened
  obtain ⟨ev, htrace, hwrites⟩ := h.writes
  have htrace' : (w.granted change .connecting new).trace =
      (.setState change .connecting new true :: ev) ++ before := congrArg (_ :: ·) htrace
  rw [htrace', Trace.since_append]
  refine ⟨fun hconnected => ?_, fun offered rc n hmem => ?_⟩
  · obtain ⟨hreceived, haccept⟩ := haccepted hconnected
    rw [htrace, Trace.since_append] at hreceived
    refine ⟨?_, haccept⟩
    rw [htrace', Trace.since_append]
    exact List.mem_cons_of_mem _ hreceived
  · exact hwrites offered rc n ((List.mem_cons.mp hmem).resolve_left nofun)

abbrev KeptOutside {α : Type} (p : M α) : Prop :=
  Kept (fun _ _ => True) policy (fun _ t => t.ConnectsSilently) Outside Extends p

/-- A connect writes nothing but its packet until the CONNACK has come. -/
theorem kept_connect (fuel : Nat) (params : Option ConnectParams) :
    KeptOutside (connect fuel call params) := by
  intro s hs
  simp only [connect, wp_bind, wp_getClientState]
  refine ⟨hs.connectsSilently, ?_⟩
  split
  next =>
    -- the trace behind the claim is where the attempt begins
    let w := s.granted .claim s.client.clientState .connecting
    have hclaim : Extends s w := .logged rfl rfl
    have hs' : Shaking w.trace (w.log (.enter .connecting)) := by
      refine ⟨rfl, fun before' hmem => ?_, [.enter .connecting], rfl, fun offered rc n hmem => ?_⟩
      · rcases List.mem_cons.mp hmem with heq | hmem
        · cases heq
          rfl
        · refine absurd ?_ hs
          rw [World.stack, ← Trace.map_fst_opened]
          exact List.mem_map.mpr ⟨_, hmem, rfl⟩
      · cases List.mem_singleton.mp hmem
    -- the attempt is over once its frame has been left
    have hdone : ∀ {t : World} (u : World) (rc : IotError),
        Continues w.trace (w.log (.enter .connecting)) t → Extends t u →
        (u.log (.leave .connecting rc)).ConnectsSilently ∧
          Outside (u.log (.leave .connecting rc)) ∧ Extends s (u.log (.leave .connecting rc)) := by
      intro t u rc ht hu
      have hextends := hclaim.trans ((ht.extends.trans hu).leave rc)
      have houtside := Outside.of_extends hextends hs
      exact ⟨houtside.connectsSilently, houtside, hextends⟩
    simp only [connectFrom, wp_bind, wp_setClientState, if_true, wp_framed]
    refine ⟨(Outside.of_extends hclaim hs).connectsSilently, hs'.silent, ?_⟩
    apply wp_mono _ (wp_internalConnect fuel params hs' rfl rfl)
    intro rc t ht
    split
    next =>
      simp only [wp_bind, wp_netDisconnect, wp_netDestroy, wp_setClientState,
        true_and, pure_eq, wp_ret]
      intro _ _
      have hclosed := ht.1.trans (ht.1.shaking.log (e := .netDisconnect) rfl (by simp))
      refine ⟨hclosed.shaking.silent, fun rc' _ => ?_⟩
      have hdestroyed := hclosed.trans (hclosed.shaking.log (e := .netDestroy rc') rfl (by simp))
      rw [if_pos hdestroyed.shaking.state]
      exact ⟨hdestroyed.shaking.silent, hdestroyed.shaking.granted_silent (by rintro ⟨⟩),
        hdone _ rc hdestroyed (.logged rfl rfl)⟩
    next hrc =>
      simp only [wp_bind, wp_setClientState, pure_eq, wp_ret, if_pos ht.1.shaking.state]
      exact ⟨ht.1.shaking.granted_silent fun _ => ht.2 (not_not.mp hrc),
        hdone _ rc ht.1 (.logged rfl rfl)⟩
  next => exact ⟨hs, .refl s⟩

/-! ## All calls -/

theorem kept_init (params : InitParams) : KeptOutside (init params) := by
  intro s hs
  unfold init
  split
  next =>
    have hextends : ∀ f, Extends s (s.onClient f) := fun _ => ⟨List.suffix_refl _, rfl⟩
    have hlog : Extends s ((s.onClient (·.initialized params)).log (.putState .initialized)) :=
      .logged rfl rfl
    simp only [wp_bind, wp_modifyClient, wp_emit, pure_eq, wp_ret]
    exact ⟨(Outside.of_extends (hextends _) hs).connectsSilently,
      (Outside.of_extends hlog hs).connectsSilently, Outside.of_extends hlog hs, hlog⟩
  next => exact ⟨hs, .refl s⟩

theorem allSteps : AllSteps (· ≠ .connecting) fun _ p => KeptOutside p := by
  refine steady.allSteps (fun s t hs h => ?_) (fun s t hs h => ?_) fun s t hs h => ?_
  all_goals
    have ht := Outside.of_extends h.extends hs
    exact ⟨ht.connectsSilently, ht, h.extends⟩

/-- Every call connects silently, if at all, at any depth. -/
theorem kept_api (fuel : Nat) (c : Call) : KeptOutside (api fuel c) := by
  intro s hs
  refine wp_recursive (P := fun _ s => Outside s) (Φ := fun _ s _ t => Outside t ∧ Extends s t)
    (fun _ _ _ => trivial) (fun fuel call hcall c => ?_) fuel c s hs
  have happ : KeptOutside (application fuel call) :=
    steady.application (fun _ _ => trivial) (fun c s hs _ => hcall c s hs) fuel
  refine allSteps.framed (f := .call c) nofun ?_
  apply allSteps.perform _ (fun _ => nofun) happ _ (kept_connect fuel) _ fun params _ =>
    kept_init params
  · rintro f hf rfl
    cases hf
  · apply allSteps.internalCycleRead
    exact allSteps.internalDeliverMessage (fun _ => nofun) happ fun _ =>
      allSteps.setClientState _ _ _

end Handshake

open Handshake

/-- Between calls no connect is in progress. -/
theorem outside_of_atRest {w : World} (h : AtRest policy w) : Outside w :=
  h.of_wp (fun _ _ => nofun) fun fuel c s hs _ =>
    wp_mono (fun _ _ ht => ht.1) (kept_api fuel c s hs)

/-- Where no PUBLISH comes before the CONNACK, a client that is connecting is
not connected before it has accepted the CONNACK, and writes nothing but the
CONNECT packet. -/
theorem connectsSilently_of_steps {w w' : World} {c : Call} {fuel : Nat} {p : M IotError}
    (h : AtRest policy w) (hsteps : Steps policy (api fuel c, w) (p, w')) :
    w'.ConnectsSilently :=
  invariant_steps (D := discipline) (I := World.ConnectsSilently) (fun _ _ _ ht => ht)
    (kept_api fuel c w (outside_of_atRest h)) (outside_of_atRest h).connectsSilently hsteps

theorem keepsTo_connectCall :
    freshWorld.keepsTo quietHandshake 20 connectCall connackPacket [] = true := by
  decide +kernel

theorem connectsSilently_connectCall :
    (freshWorld.underway 20 connectCall connackPacket [] 50).2.ConnectsSilently :=
  connectsSilently_of_steps (AtRest.init blankClient sampleInitParams)
    (steps_underway 50 (fun _ _ _ h => h) keepsTo_connectCall)

def Event.isConnack : Event → Bool
  | .received .connack => true
  | _ => false

/-- A connect to which the broker answers with a message first. -/
def greetedWorld : World :=
  (freshWorld.underway 20 connectCall (messagePacket ++ connackPacket) [] 50).2

theorem greetedWorld_connected :
    greetedWorld.inHandshake = true ∧ greetedWorld.isClientConnected = true ∧
      greetedWorld.trace.any Event.isConnack = false := by
  decide +kernel

/-- A handshake runs within a connect. -/
theorem exists_opened_of_inHandshake {w : World} (h : w.inHandshake = true) :
    ∃ before, (.connecting, before) ∈ w.trace.opened := by
  unfold World.inHandshake at h
  split at h
  next hstack =>
    have hmem : .connecting ∈ w.stack := by
      rw [hstack]
      simp
    rw [World.stack, ← Trace.map_fst_opened] at hmem
    obtain ⟨⟨f, before⟩, hmem, rfl⟩ := List.mem_map.mp hmem
    exact ⟨before, hmem⟩
  next => cases h

/-- While the message is delivered the client counts as connected. -/
theorem not_connectsSilently_greetedWorld :
    ¬ ∀ (w w' : World) (c : Call) (fuel : Nat) (p : M IotError), AtRest anything w →
      Steps anything (api fuel c, w) (p, w') → w'.ConnectsSilently := by
  intro h
  obtain ⟨hshake, hconnected, hconnack⟩ := greetedWorld_connected
  have hsilent : greetedWorld.ConnectsSilently :=
    h _ _ connectCall 20 _ (AtRest.init blankClient sampleInitParams)
      (steps_underway 50 (fun _ _ _ _ => trivial) (keepsTo_true _ _ _))
  obtain ⟨before, hopened⟩ := exists_opened_of_inHandshake hshake
  have hreceived := ((hsilent before hopened).1 hconnected).received
  have hany : greetedWorld.trace.any Event.isConnack = true :=
    List.any_eq_true.mpr ⟨_, List.mem_of_mem_take hreceived, rfl⟩
  rw [hconnack] at hany
  cases hany

end MqttClient
