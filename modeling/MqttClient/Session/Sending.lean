import MqttClient.Session.Runs

/-! # Sending in pieces

A network may accept less than it is offered. `internalSendPacket` then offers
more, from where the network has stopped, but again as many bytes as the whole
packet has. So what it sends is the packet as long as it writes once.
-/

namespace MqttClient

open Effect Program

/-- What was offered in a write, and how much of it was accepted. -/
def Event.write? : Event → Option (List UInt8 × Nat)
  | .netWrite offered _ written => some (offered, written)
  | _ => none

/-- The writes in a part of a trace, the first one first. -/
def writes (events : Trace) : List (List UInt8 × Nat) := (events.filterMap Event.write?).reverse

/-- The bytes that were accepted, one after the other. -/
def accepted (ws : List (List UInt8 × Nat)) : List UInt8 := ws.flatMap fun w => w.1.take w.2

theorem writes_cons_netWrite (offered : List UInt8) (rc : IotError) (written : Nat)
    (events : Trace) :
    writes (.netWrite offered rc written :: events) = writes events ++ [(offered, written)] :=
  List.reverse_cons

/-- Only what is left of the packet is offered, and what is accepted is a beginning of it. -/
structure KeepsToPacket (packet : List UInt8) (ws : List (List UInt8 × Nat)) : Prop where
  offers : ∀ before w after, ws = before ++ w :: after →
    w.1 <+: packet.drop (accepted before).length
  begins : accepted ws <+: packet

/-- What sending a packet is about: besides, success means that it has been accepted as a whole. -/
structure SendsPacket (packet : List UInt8) (rc : IotError) (ws : List (List UInt8 × Nat)) :
    Prop where
  keeps : KeepsToPacket packet ws
  success_iff : rc = .success ↔ accepted ws = packet

/-- The network accepts a nonempty beginning of what it is offered. -/
def Policy.AcceptsBeginnings (allow : Policy) : Prop :=
  ∀ bytes s (r : WriteResult bytes.length), allow (.netWrite bytes) s r →
    r.rc = .success ∧ 0 < r.written

/-- No mutex operation fails. -/
def Policy.MutexesWork (allow : Policy) : Prop :=
  ∀ mutex s (ok : Bool), allow (.lock mutex) s ok ∨ allow (.unlock mutex) s ok → ok = true

/-- A discipline for sending: anything may be asked. -/
abbrev sending (allow : Policy) : Discipline World Answer :=
  solo (fun _ _ => True) allow fun _ _ => True

/-- The writes so far, after which `sent` bytes have been counted: none, one, or a first one that
left a rest and a second one that offered as much again. -/
inductive Progress (buf : Memory) (length : Nat) : Nat → List (List UInt8 × Nat) → Prop where
  | start : Progress buf length 0 []
  | once (n : Nat) (hpos : 0 < n) (hle : n ≤ length) :
    Progress buf length n [(buf.load 0 length, n)]
  | again (sent n m : Nat) (rest : List (List UInt8 × Nat)) (hpos : 0 < n) (hlt : n < length) :
      Progress buf length sent ((buf.load 0 length, n) :: (buf.load n length, m) :: rest)

section Loop

variable {allow : Policy} {s : World} {length : Nat} {timer : TimerName}

/-- The client is as it was at the start, and the writes since then are these. -/
def HasSent (s : World) (length sent : Nat) (t : World) : Prop :=
  t.client = s.client ∧ ∃ events, t.trace = events ++ s.trace ∧
    Progress s.client.writeBuf length sent (writes events)

/-- A write of what is at the count, as long as the packet. -/
theorem HasSent.write {sent written : Nat} {rc : IotError} {t : World}
    (h : HasSent s length sent t) (hmore : sent < length) (hpos : 0 < written)
    (hle : written ≤ length) :
    HasSent s length (sent + written)
      (t.log (.netWrite (t.client.writeBuf.load sent length) rc written)) := by
  obtain ⟨hclient, events, htrace, hprogress⟩ := h
  rw [hclient]
  refine ⟨hclient, .netWrite (s.client.writeBuf.load sent length) rc written :: events, ?_, ?_⟩
  · rw [World.trace_log, htrace]
    rfl
  · rw [writes_cons_netWrite]
    generalize writes events = ws at hprogress
    cases hprogress with
    | start =>
        rw [Nat.zero_add]
        exact .once written hpos hle
    | once _ hfirst => exact .again _ sent written [] hfirst hmore
    | again _ n m rest hn hlt => exact .again _ n m (rest ++ [_]) hn hlt

/-- One turn of the loop: a write is added, or nothing happens any more. -/
theorem wp_sendPacketStep (hwrite : allow.AcceptsBeginnings) {sent : Nat} {t : World}
    (h : HasSent s length sent t) :
    wp (sending allow) (sendPacketStep length timer sent)
      (fun r u => r.elim (HasSent s length · u) (HasSent s length · u)) t := by
  unfold sendPacketStep
  split
  next hmore =>
    simp only [wp_bind, wp_hasTimerExpired]
    refine ⟨trivial, fun expired _ => ?_⟩
    split
    · exact h
    · simp only [netWrite, wp_bind, wp_getClient, wp_query, wp_emit, pure_eq, wp_ret]
      refine ⟨trivial, trivial, fun r hr => ⟨trivial, ?_⟩⟩
      obtain ⟨hrc, hpos⟩ := hwrite _ _ r hr
      have hle : r.written ≤ length :=
        Nat.le_trans r.written_le (Nat.le_of_eq (Memory.length_load _ _ _))
      rw [if_pos hrc]
      exact h.write hmore hpos hle
  next => exact h

theorem wp_sendPacketLoop (hwrite : allow.AcceptsBeginnings) (fuel : Nat) :
    wp (sending allow) (loop (sendPacketStep length timer) fuel 0)
      (fun sent t => HasSent s length sent t) s :=
  wp_loop (I := fun sent t => HasSent s length sent t) (fun _ _ _ => trivial)
    (fun _ _ h => wp_sendPacketStep hwrite h) fuel 0 s ⟨rfl, [], rfl, .start⟩

end Loop

/-! ## What the writes come to -/

section Writes

variable {buf : Memory} {length sent : Nat} {rc : IotError} {ws : List (List UInt8 × Nat)}

theorem take_load {n : Nat} (h : n ≤ length) : (buf.load 0 length).take n = buf.load 0 n := by
  obtain ⟨rest, rfl⟩ := Nat.exists_eq_add_of_le h
  rw [Memory.load_add, List.take_left' (Memory.length_load _ _ _)]

theorem load_eq_iff {n : Nat} : buf.load 0 n = buf.load 0 length ↔ n = length := by
  constructor
  · intro heq
    simpa using congrArg List.length heq
  · rintro rfl
    rfl

theorem keepsToPacket_once (n : Nat) :
    KeepsToPacket (buf.load 0 length) [(buf.load 0 length, n)] := by
  constructor
  · intro before w after heq
    cases before with
    | nil =>
        cases heq
        exact List.prefix_rfl
    | cons b before => cases before <;> cases heq
  · rw [accepted, List.flatMap_singleton]
    exact List.take_prefix n _

/-- The second write offers too much. -/
theorem not_keepsToPacket_again {n m : Nat} {rest : List (List UInt8 × Nat)} (hpos : 0 < n)
    (hlt : n < length) :
    ¬KeepsToPacket (buf.load 0 length)
      ((buf.load 0 length, n) :: (buf.load n length, m) :: rest) := by
  intro h
  have hsecond := (h.offers [(buf.load 0 length, n)] (buf.load n length, m) rest rfl).length_le
  rw [accepted, List.flatMap_singleton, List.length_drop, take_load (Nat.le_of_lt hlt)] at hsecond
  simp only [Memory.length_load] at hsecond
  omega

theorem Progress.keepsToPacket_iff (h : Progress buf length sent ws) :
    KeepsToPacket (buf.load 0 length) ws ↔ ws.length ≤ 1 := by
  cases h with
  | start =>
      refine iff_of_true ⟨fun before w after heq => ?_, List.nil_prefix⟩ (Nat.zero_le 1)
      cases before <;> cases heq
  | once _ hpos hle => exact iff_of_true (keepsToPacket_once _) (Nat.le_refl 1)
  | again _ n m rest hpos hlt =>
      refine iff_of_false (not_keepsToPacket_again hpos hlt) ?_
      simp only [List.length_cons]
      omega

/-- Up to the first write, the count says what has been accepted. -/
theorem Progress.accepted_eq_iff (h : Progress buf length sent ws) (hfew : ws.length ≤ 1) :
    accepted ws = buf.load 0 length ↔ sent = length := by
  cases h with
  | start => exact load_eq_iff (n := 0)
  | once n hpos hle =>
      rw [accepted, List.flatMap_singleton, take_load hle]
      exact load_eq_iff
  | again _ n m rest hpos hlt =>
      simp only [List.length_cons] at hfew
      omega

end Writes

/-! ## The call -/

section Call

variable {allow : Policy} {length : Nat} {s : World}

/-- A mutex operation changes nothing, and succeeds where mutexes work. -/
theorem wp_lockMutex_sending (mutex : MutexName) (s : World) :
    wp (sending allow) (lockMutex mutex)
      (fun rc t => (allow.MutexesWork → rc = .success) ∧ t = s) s := by
  simp only [lockMutex, wp_bind, wp_getClient]
  refine ⟨trivial, ?_⟩
  split
  · simp only [wp_bind, wp_query]
    refine ⟨trivial, fun ok hok => ⟨fun hwork => ?_, rfl⟩⟩
    exact if_pos (hwork mutex s ok (.inl hok))
  · exact ⟨fun _ => rfl, rfl⟩

theorem wp_unlockMutex_sending (mutex : MutexName) (s : World) :
    wp (sending allow) (unlockMutex mutex)
      (fun rc t => (allow.MutexesWork → rc = .success) ∧ t = s) s := by
  simp only [unlockMutex, wp_bind, wp_getClient]
  refine ⟨trivial, ?_⟩
  split
  · simp only [wp_bind, wp_query]
    refine ⟨trivial, fun ok hok => ⟨fun hwork => ?_, rfl⟩⟩
    exact if_pos (hwork mutex s ok (.inr hok))
  · exact ⟨fun _ => rfl, rfl⟩

/-- How sending ends: with the writes that led to the count, and a code that is success only for a
count that is the length; there it is success if the packet has room and the mutexes work. -/
structure Ends (allow : Policy) (s : World) (length : Nat) (rc : IotError) (t : World)
    (events : Trace) (sent : Nat) : Prop where
  trace_eq : t.trace = events ++ s.trace
  progress : Progress s.client.writeBuf length sent (writes events)
  sound : rc = .success → sent = length ∧ length < s.client.writeBufSize
  complete : allow.MutexesWork → length < s.client.writeBufSize → sent = length → rc = .success
  refused : s.client.writeBufSize ≤ length → sent = 0

theorem wp_internalSendPacket_ends (hwrite : allow.AcceptsBeginnings) (fuel : Nat)
    (timer : TimerName) :
    wp (sending allow) (internalSendPacket fuel length timer)
      (fun rc t => ∃ events sent, Ends allow s length rc t events sent) s := by
  unfold internalSendPacket
  simp only [wp_bind, wp_getClient]
  refine ⟨trivial, ?_⟩
  split
  next hfull =>
    exact ⟨[], 0, rfl, .start, nofun, fun _ hroom => absurd hroom (Nat.not_lt.mpr hfull),
      fun _ => rfl⟩
  next hroom =>
    have hsize := Nat.not_le.mp hroom
    simp only [wp_bind]
    apply wp_mono _ (wp_lockMutex_sending _ s)
    rintro rc t ⟨hlocked, rfl⟩
    simp only [wp_onSuccess, wp_bind]
    refine ⟨fun _ => ?_, fun hrc => ?_⟩
    · -- the loop runs under the mutex, and its end decides
      apply wp_mono _ (wp_sendPacketLoop hwrite fuel)
      rintro sent u ⟨hclient, events, htrace, hprogress⟩
      apply wp_mono _ (wp_unlockMutex_sending _ u)
      rintro rc v ⟨hunlocked, rfl⟩
      refine ⟨fun _ => ?_, fun hrc => ?_⟩
      · split
        next hall =>
          simp only [wp_bind, wp_modify, pure_eq, wp_ret]
          refine ⟨trivial, .sent (v.client.writeBuf.load 0 length) :: events, sent, ?_, hprogress,
            fun _ => ⟨hall, hsize⟩, fun _ _ _ => rfl, fun hfull => absurd hfull hroom⟩
          rw [World.trace_log, htrace]
          rfl
        next hrest =>
          exact ⟨events, sent, htrace, hprogress, nofun, fun _ _ hall => absurd hall hrest,
            fun hfull => absurd hfull hroom⟩
      · exact ⟨events, sent, htrace, hprogress, fun h => absurd h hrc,
          fun hwork => absurd (hunlocked hwork) hrc, fun hfull => absurd hfull hroom⟩
    · exact ⟨[], 0, rfl, .start, fun h => absurd h hrc, fun hwork => absurd (hlocked hwork) hrc,
        fun _ => rfl⟩

/-- Where no mutex operation fails, the packet is sent as it should be exactly if there is one
write at most (and room for the packet, should it be empty): the first write takes all of it, or
the timer has expired by the time it is looked at again. What is offered and accepted depends on
that alone. -/
theorem sendsPacket_iff {fuel : Nat} {timer : TimerName} {t : World} {rc : IotError}
    (hwrite : allow.AcceptsBeginnings)
    (h : Returns allow (internalSendPacket fuel length timer) s rc t) :
    ∃ events, t.trace = events ++ s.trace ∧
      (KeepsToPacket (s.client.writeBuf.load 0 length) (writes events) ↔
        (writes events).length ≤ 1) ∧
      ((writes events).length ≤ 1 → rc = .success →
        accepted (writes events) = s.client.writeBuf.load 0 length) ∧
      (allow.MutexesWork → (SendsPacket (s.client.writeBuf.load 0 length) rc (writes events) ↔
        (writes events).length ≤ 1 ∧ (length = 0 → 0 < s.client.writeBufSize))) := by
  obtain ⟨events, sent, hends⟩ :=
    wp_returns (D := sending allow) (wp_internalSendPacket_ends hwrite fuel timer) h
  have hkeeps := hends.progress.keepsToPacket_iff
  refine ⟨events, hends.trace_eq, hkeeps, fun hfew hrc => ?_, fun hwork => ⟨fun hsends => ?_, ?_⟩⟩
  · exact (hends.progress.accepted_eq_iff hfew).mpr (hends.sound hrc).1
  · have hfew := hkeeps.mp hsends.keeps
    refine ⟨hfew, fun hempty => ?_⟩
    by_contra hfull
    have hsent := hends.refused (by omega)
    have hall := (hends.progress.accepted_eq_iff hfew).mpr (hsent.trans hempty.symm)
    have := (hends.sound (hsends.success_iff.mpr hall)).2
    omega
  · rintro ⟨hfew, hroom⟩
    refine ⟨hkeeps.mpr hfew, ?_⟩
    rw [hends.progress.accepted_eq_iff hfew]
    refine ⟨fun hrc => (hends.sound hrc).1, fun hall => ?_⟩
    apply hends.complete hwork _ hall
    by_contra hfull
    have hsent := hends.refused (Nat.not_lt.mp hfull)
    have := hroom (hall.symm.trans hsent)
    omega

end Call

/-! ## A network that takes so many bytes at a time -/

/-- The answers of a network that accepts the first of these amounts in the first write, and so
on. -/
def takesBytes (amounts : List Nat) : (q : Query) → Answer q × List Nat
  | .netWrite bytes =>
      (⟨.success, min bytes.length (amounts.headD 0), Nat.min_le_left _ _⟩, amounts.tail)
  | .netRead _ n => (Script.nothingRead n, amounts)
  | .hasTimerExpired _ => (false, amounts)
  | .lock _ | .unlock _ => (true, amounts)
  | .application => ((none : Option Call), amounts)
  | .netConnect | .netDisconnect | .netIsConnected | .netDestroy => (IotError.success, amounts)

/-- Writes accept something, and mutex operations succeed. -/
def isAccepting : (q : Query) → World → Answer q → Bool
  | .netWrite _, _, r => r.rc = .success && decide (0 < r.written)
  | .lock _, _, ok | .unlock _, _, ok => ok
  | _, _, _ => true

/-- The policy of such networks. -/
def accepting : Policy := fun q s a => isAccepting q s a = true

theorem acceptsBeginnings_accepting : accepting.AcceptsBeginnings := by
  intro bytes s r hr
  obtain ⟨hrc, hpos⟩ := Bool.and_eq_true_iff.mp hr
  exact ⟨of_decide_eq_true hrc, of_decide_eq_true hpos⟩

theorem mutexesWork_accepting : accepting.MutexesWork := by
  rintro mutex s ok (hok | hok) <;> exact hok

/-- A client about to send a PINGREQ. -/
def pingWorld : World :=
  connectedWorld.onClient fun c => { c with writeBuf := c.writeBuf.store 0 [0xc0, 0] }

/-- The world after sending it on such a network, and the result. -/
def pinged (amounts : List Nat) : Option IotError × List Nat × World :=
  (internalSendPacket 5 2 .command).run takesBytes amounts pingWorld

theorem returns_pinged {amounts : List Nat} {rc : IotError}
    (hkeeps : (internalSendPacket 5 2 .command).keepsTo takesBytes isAccepting amounts pingWorld =
      true)
    (h : (pinged amounts).1 = some rc) :
    Returns accepting (internalSendPacket 5 2 .command) pingWorld rc (pinged amounts).2.2 :=
  returns_run (fun _ _ _ h => h) hkeeps h

/-- The network takes the packet as a whole. -/
theorem sendsPacket_iff_pinged :
    ∃ events, (pinged [2]).2.2.trace = events ++ pingWorld.trace ∧
      (KeepsToPacket (pingWorld.client.writeBuf.load 0 2) (writes events) ↔
        (writes events).length ≤ 1) ∧
      ((writes events).length ≤ 1 → IotError.success = .success →
        accepted (writes events) = pingWorld.client.writeBuf.load 0 2) ∧
      (SendsPacket (pingWorld.client.writeBuf.load 0 2) .success (writes events) ↔
        (writes events).length ≤ 1 ∧ (2 = 0 → 0 < pingWorld.client.writeBufSize)) := by
  have hret : Returns accepting (internalSendPacket 5 2 .command) pingWorld .success
      (pinged [2]).2.2 := returns_pinged (by decide +kernel) (by decide +kernel)
  obtain ⟨events, htrace, hkeeps, hsuccess, hsends⟩ :=
    sendsPacket_iff acceptsBeginnings_accepting hret
  exact ⟨events, htrace, hkeeps, hsuccess, hsends mutexesWork_accepting⟩

/-- It takes one byte, and then all it is offered: three bytes in all, of which the last one does
not belong to the packet, and the client reports a failure. -/
theorem not_sendsPacket_pinged :
    Returns accepting (internalSendPacket 5 2 .command) pingWorld .failure (pinged [1, 2]).2.2 ∧
      ∃ events, (pinged [1, 2]).2.2.trace = events ++ pingWorld.trace ∧
        (accepted (writes events)).length = 3 ∧
        ¬SendsPacket (pingWorld.client.writeBuf.load 0 2) .failure (writes events) := by
  refine ⟨returns_pinged (by decide +kernel) (by decide +kernel), ?_⟩
  refine ⟨[.netWrite (pingWorld.client.writeBuf.load 1 2) .success 2,
    .netWrite (pingWorld.client.writeBuf.load 0 2) .success 1], rfl, by decide +kernel, ?_⟩
  intro h
  exact not_keepsToPacket_again (by decide) (by decide) h.keeps

end MqttClient
