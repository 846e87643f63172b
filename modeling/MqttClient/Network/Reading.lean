import MqttClient.Client.World
import MqttClient.Network.Wrapper

/-! # Reading through the TLS wrapper

Whatever the library and the clock answer, what has been consumed of the stream
lies at the start of the caller's buffer, and the code that is returned says
whether it is all, nothing or a part of what was asked for.
-/

namespace MqttClient.Network

open Effect Program

/-- The environment may answer whatever it likes. -/
abbrev anything : (q : Query) → Link → Answer q → Prop := fun _ _ _ => True

/-- The next `n` bytes of the stream have been stored from `off` on, and no others. -/
structure Received (off n : Nat) (s t : Link) : Prop where
  memory : t.memory = s.memory.store off (s.stream.load s.consumed n)
  stream : t.stream = s.stream
  consumed : t.consumed = s.consumed + n

/-- What a read of `len` bytes may return, and what it then has done. -/
inductive ReadOutcome (off len : Nat) (s t : Link) : IotError × Option Nat → Prop
  | success (h : Received off len s t) : ReadOutcome off len s t (.success, some len)
  | nothing (hlen : 0 < len) (h : Received off 0 s t) :
      ReadOutcome off len s t (.networkSslNothingToRead, none)
  | timeout {n : Nat} (hpos : 0 < n) (hn : n < len) (h : Received off n s t) :
      ReadOutcome off len s t (.networkSslReadTimeoutError, none)
  | failed {n : Nat} (hn : n < len) (h : Received off n s t) :
      ReadOutcome off len s t (.networkSslReadError, none)

/-- Memory outside of the buffer stays as it is, and the loop does not go on once all
bytes are there. -/
def reading (off len : Nat) (s : Link) : Discipline Link Answer where
  pre _ _ := True
  allow := anything
  may _ _ := True
  guar t u := ∀ i, i < off ∨ off + len ≤ i → u.memory i = t.memory i
  rely t u := u = t
  halts t := t.consumed < s.consumed + len

instance (off len : Nat) (s : Link) : (reading off len s).Sequential :=
  ⟨fun _ _ => trivial, fun _ _ => Iff.rfl⟩

section Received

variable {off n : Nat} {s t : Link}

theorem received_zero (off : Nat) (s : Link) : Received off 0 s s where
  memory := by rw [Memory.load_zero, Memory.store_nil]
  stream := rfl
  consumed := rfl

theorem Received.log (h : Received off n s t) (e : Exchange) : Received off n s (t.log e) :=
  ⟨h.memory, h.stream, h.consumed⟩

/-- The bytes of one more read are stored behind the others. -/
theorem Received.stored (h : Received off n s t) (ret : Int) :
    Received off (n + ret.toNat) s (t.stored (off + n) ret) where
  memory := by
    have hlength : (s.stream.load s.consumed n).length = n := Memory.length_load _ _ _
    have hnext := Memory.store_append s.memory off (s.stream.load s.consumed n)
      (s.stream.load (s.consumed + n) ret.toNat)
    rw [Memory.load_add, hnext, hlength, ← h.memory, ← h.stream, ← h.consumed]
    rfl
  stream := h.stream
  consumed := by
    rw [← Nat.add_assoc, ← h.consumed]
    rfl

theorem stored_outside (t : Link) {off i : Nat} {ret : Int}
    (h : i < off ∨ off + ret.toNat ≤ i) : (t.stored off ret).memory i = t.memory i := by
  rcases h with h | h
  · exact Memory.store_apply_of_lt _ _ h
  · exact Memory.store_apply_of_le _ _ (by rwa [Memory.length_load])

end Received

section Loop

variable {off len : Nat} {timer : Timer} {s t : Link}

/-- What the variables of the loop say: where the next byte goes, and how many are left. -/
structure Receiving (off len : Nat) (s : Link) (p : ReadProgress) (t : Link) : Prop where
  position : p.pMsg = off + p.rxLen
  left : p.rxLen + p.len = len
  received : Received off p.rxLen s t

def LoopEnds (off len : Nat) (s : Link) (r : Except IotError ReadProgress) (t : Link) : Prop :=
  match r with
  | .error rc => rc = .networkSslReadError ∧ ∃ n < len, Received off n s t
  | .ok p => Receiving off len s p t

/-- A turn goes on where there are bytes left. -/
abbrev TurnEnds (off len : Nat) (s : Link) (r : ReadProgress ⊕ Except IotError ReadProgress)
    (t : Link) : Prop :=
  Sum.elim (fun p => 0 < p.len ∧ Receiving off len s p t) (LoopEnds off len s · t) r

theorem Receiving.log {p : ReadProgress} (h : Receiving off len s p t) (e : Exchange) :
    Receiving off len s p (t.log e) :=
  ⟨h.position, h.left, h.received.log e⟩

theorem wp_untilExpired {p : ReadProgress} (h : Receiving off len s p t) :
    wp (reading off len s) (untilExpired timer p) (TurnEnds off len s) t := by
  simp only [untilExpired, hasTimerExpired, wp_bind, wp_query, wp_modify, pure_eq, wp_ret]
  refine ⟨trivial, fun now _ => ⟨fun _ _ => rfl, ?_⟩⟩
  split
  · exact h.log _
  · split
    next hleft => exact ⟨hleft, h.log _⟩
    next => exact h.log _

/-- Step lemma: a turn moves the next bytes, or none. -/
theorem wp_iotTlsReadStep {p : ReadProgress} (hleft : 0 < p.len) (h : Receiving off len s p t) :
    wp (reading off len s) (iotTlsReadStep timer p) (TurnEnds off len s) t := by
  have hposition := h.position
  have hlen := h.left
  simp only [iotTlsReadStep, sslRead, wp_bind, wp_query, wp_modify, pure_eq, wp_ret]
  refine ⟨trivial, fun ret _ => ?_⟩
  obtain ⟨ret, hret⟩ := ret
  have hbytes : ret.toNat ≤ p.len := Int.toNat_le.mpr hret
  have hreceived :
    Received off (p.rxLen + ret.toNat) s ((t.stored p.pMsg ret).log (.read p.len ret)) := by
    rw [hposition]
    exact (h.received.stored ret).log _
  have houtside : ∀ i, i < off ∨ off + len ≤ i → (t.stored p.pMsg ret).memory i = t.memory i :=
    fun i hi => stored_outside t (by omega)
  refine ⟨houtside, ?_⟩
  simp only
  split
  next hpos => exact wp_untilExpired ⟨by simp only; omega, by simp only; omega, hreceived⟩
  next hnonpos =>
    rw [Int.toNat_of_nonpos (Int.not_lt.mp hnonpos), Nat.add_zero] at hreceived
    split
    next => exact ⟨rfl, p.rxLen, by omega, hreceived⟩
    next => exact wp_untilExpired ⟨hposition, hlen, hreceived⟩

theorem wp_iotTlsReadLoop (turns off len : Nat) (timer : Timer) (s : Link) :
    wp (reading off len s) (iotTlsReadLoop turns off len timer) (LoopEnds off len s) s := by
  have hstart : Receiving off len s ⟨0, off, len⟩ s := ⟨rfl, Nat.zero_add len, received_zero off s⟩
  unfold iotTlsReadLoop
  split
  next hlen =>
    refine wp_loop (I := fun p t => 0 < p.len ∧ Receiving off len s p t) ?_ ?_ turns _ s
      ⟨hlen, hstart⟩
    · rintro p t ⟨hleft, h⟩
      change t.consumed < s.consumed + len
      rw [h.received.consumed, ← h.left]
      omega
    · exact fun p t h => wp_iotTlsReadStep h.1 h.2
  next => exact hstart

/-- Run lemma: what a read returns says what it has stored. -/
theorem wp_iotTlsRead (turns off len : Nat) (timer : Timer) (s : Link) :
    wp (reading off len s) (iotTlsRead turns off len timer)
      (fun r t => ReadOutcome off len s t r) s := by
  simp only [iotTlsRead, wp_bind]
  apply wp_mono _ (wp_iotTlsReadLoop turns off len timer s)
  intro r t ht
  cases r with
  | error rc =>
      obtain ⟨rfl, n, hn, hreceived⟩ := ht
      exact .failed hn hreceived
  | ok p =>
      have hlen := ht.left
      have hreceived := ht.received
      simp only
      split
      next hdone =>
        have hall : p.rxLen = len := by omega
        rw [hall] at hreceived ⊢
        exact .success hreceived
      next hmore =>
        split
        next hnone =>
          rw [hnone] at hreceived
          exact .nothing (by omega) hreceived
        next hsome => exact .timeout (Nat.pos_of_ne_zero hsome) (by omega) hreceived

end Loop

/-! ## What the code returned says -/

/-- The next `len` bytes of the stream have been consumed, and lie in order from `off` on. -/
structure Filled (off len : Nat) (s t : Link) : Prop where
  consumed : t.consumed = s.consumed + len
  load : t.memory.load off len = s.stream.load s.consumed len

/-- What can be relied on in every run of a read of `len` bytes. -/
structure ReadsRightly (turns off len : Nat) (timer : Timer) (s : Link) : Prop where
  inside : ∀ p t, Steps anything (iotTlsRead turns off len timer, s) (p, t) →
    ∀ i, i < off ∨ off + len ≤ i → t.memory i = s.memory i
  success_iff : ∀ r t, Returns anything (iotTlsRead turns off len timer) s r t →
    (r.1 = .success ↔ Filled off len s t)
  readLen : ∀ r t, Returns anything (iotTlsRead turns off len timer) s r t →
    r.1 = .success → r.2 = some len
  nothing : ∀ r t, Returns anything (iotTlsRead turns off len timer) s r t →
    r.1 = .networkSslNothingToRead → t.consumed = s.consumed
  /-- It does not go on once the bytes are there. -/
  unfinished : ∀ t, Steps anything (iotTlsRead turns off len timer, s) (.stop, t) →
    ¬ Filled off len s t

theorem Received.filled {off len : Nat} {s t : Link} (h : Received off len s t) :
    Filled off len s t where
  consumed := h.consumed
  load := by
    have hload := Memory.load_store s.memory off (s.stream.load s.consumed len)
    rw [Memory.length_load] at hload
    rw [h.memory, hload]

theorem Received.not_filled {off len n : Nat} {s t : Link} (h : Received off n s t) (hn : n < len) :
    ¬ Filled off len s t := by
  intro hfilled
  have hconsumed := hfilled.consumed
  rw [h.consumed] at hconsumed
  omega

/-- A read succeeds exactly if it has stored the bytes asked for, and reports that there is
nothing to read only if it has consumed nothing. -/
theorem iotTlsRead_readsRightly (turns off len : Nat) (timer : Timer) (s : Link) :
    ReadsRightly turns off len timer s := by
  have hwp := wp_iotTlsRead turns off len timer s
  refine ⟨?_, ?_, ?_, ?_, ?_⟩
  · intro p t hsteps
    apply invariant_steps (D := reading off len s)
      (I := fun t => ∀ i, i < off ∨ off + len ≤ i → t.memory i = s.memory i) _ hwp (fun _ _ => rfl)
      hsteps
    exact fun t u ht hguar i hi => (hguar i hi).trans (ht i hi)
  · intro r t hreturns
    cases wp_returns hwp hreturns with
    | success h => exact iff_of_true rfl h.filled
    | nothing hlen h => exact iff_of_false nofun (h.not_filled hlen)
    | timeout _ hn h => exact iff_of_false nofun (h.not_filled hn)
    | failed hn h => exact iff_of_false nofun (h.not_filled hn)
  · intro r t hreturns hrc
    cases wp_returns hwp hreturns with
    | success => rfl
    | nothing | timeout | failed => cases hrc
  · intro r t hreturns hrc
    cases wp_returns hwp hreturns with
    | nothing _ h => exact h.consumed
    | success | timeout | failed => cases hrc
  · intro t hsteps hfilled
    have hstop : t.consumed < s.consumed + len := wp_steps hwp hsteps
    rw [hfilled.consumed] at hstop
    exact Nat.lt_irrefl _ hstop

/-! ## The network that the client sees -/

/-- The bytes of a result have come in, and lie where the client's code expects them. -/
structure Delivers {len : Nat} (off : Nat) (s t : Link) (result : ReadResult len) : Prop where
  bytes : result.bytes = s.stream.load s.consumed result.bytes.length
  memory : t.memory = s.memory.store off result.bytes
  consumed : t.consumed = s.consumed + result.bytes.length

theorem Received.delivers {off len n : Nat} {s t : Link} {result : ReadResult len}
    (h : Received off n s t) (hbytes : result.bytes = s.stream.load s.consumed n) :
    Delivers off s t result := by
  have hlength : result.bytes.length = n := by rw [hbytes, Memory.length_load]
  refine ⟨?_, ?_, ?_⟩
  · rw [hlength, hbytes]
  · rw [hbytes, h.memory]
  · rw [hlength, h.consumed]

/-- What a read returns is a result that the client's code reckons with. -/
theorem exists_readResult {turns off len : Nat} {timer : Timer} {s t : Link}
    {r : IotError × Option Nat}
    (hreturns : Returns anything (iotTlsRead turns off len timer) s r t) :
    ∃ result : ReadResult len, result.rc = r.1 ∧ Delivers off s t result := by
  have hload (n : Nat) : (s.stream.load s.consumed n).length = n := Memory.length_load _ _ _
  have hpart {n : Nat} (hn : n < len) : (s.stream.load s.consumed n).length ≤ len - 1 := by
    rw [hload]
    exact Nat.le_sub_one_of_lt hn
  cases wp_returns (wp_iotTlsRead turns off len timer s) hreturns with
  | success h => exact ⟨.success _ (hload len), rfl, h.delivers rfl⟩
  | nothing _ h =>
      exact ⟨.failure .networkSslNothingToRead [] (by simp) (Nat.zero_le _) fun _ => rfl, rfl,
        h.delivers rfl⟩
  | timeout _ hn h =>
      exact ⟨.failure .networkSslReadTimeoutError _ (by simp) (hpart hn) (by simp),
        rfl, h.delivers rfl⟩
  | failed hn h =>
      exact ⟨.failure .networkSslReadError _ (by simp) (hpart hn) (by simp), rfl, h.delivers rfl⟩

end MqttClient.Network
