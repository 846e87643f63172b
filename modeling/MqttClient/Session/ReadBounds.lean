import MqttClient.Client.Script
import MqttClient.Wire.LengthFields
import Mathlib.Tactic.IntervalCases

/-! # The bounds of the receive buffer

Reading one packet, for a network that has a stream of bytes in store and ends
each read well or badly as a schedule says. The size test of
`internalReadPacket` looks at the remaining length alone, so a packet is
handled as it should be exactly when that test and the size of the whole
packet agree.
-/

namespace MqttClient

open Effect

/-! ## A network with a stream and a schedule -/

/-- How a read ends that does not succeed, and how many bytes it would store. -/
structure ReadFault where
  rc : IotError
  stored : Nat
  rc_ne : rc ≠ .success
  nothing : rc = .networkSslNothingToRead → stored = 0

/-- The bytes to come, and how each read ends: well, if no fault is scheduled. -/
structure Incoming where
  stream : Nat → UInt8
  fault : Nat → Option ReadFault

/-- How many reads there have been, and how many bytes they have taken. -/
structure Reader where
  reads : Nat
  bytes : Nat

namespace Incoming

variable (inc : Incoming)

def slice (pos n : Nat) : List UInt8 := (List.range n).map fun i => inc.stream (pos + i)

@[simp] theorem length_slice (pos n : Nat) : (inc.slice pos n).length = n := by simp [slice]

theorem slice_succ (pos n : Nat) :
    inc.slice pos (n + 1) = inc.slice pos n ++ [inc.stream (pos + n)] := by
  simp [slice, List.range_succ]

/-- A read of `n` bytes. -/
def read (r : Reader) (n : Nat) : ReadResult n :=
  match inc.fault r.reads with
  | none => .success (inc.slice r.bytes n) (inc.length_slice _ _)
  | some f => .failure f.rc (inc.slice r.bytes (min f.stored (n - 1))) f.rc_ne
      (by rw [length_slice]; exact Nat.min_le_right _ _)
      (fun h => by rw [f.nothing h, Nat.zero_min]; rfl)

/-- What the reader has taken after a read of `n` bytes. -/
def next (r : Reader) (n : Nat) : Reader :=
  ⟨r.reads + 1, r.bytes + (inc.read r n).bytes.length⟩

/-- The environment: reads are as scheduled, everything else is uneventful. -/
def answer (r : Reader) : (q : Query) → Answer q × Reader
  | .netRead _ n => (inc.read r n, inc.next r n)
  | .netWrite bytes => (Script.fullyWritten bytes, r)
  | .hasTimerExpired _ => (false, r)
  | .application => ((none : Option Call), r)
  | .lock _ | .unlock _ => (true, r)
  | .netConnect | .netDisconnect | .netIsConnected | .netDestroy => (IotError.success, r)

/-- Without a fault a read takes the next bytes of the stream. -/
theorem read_of_none {r : Reader} (n : Nat) (h : inc.fault r.reads = none) :
    inc.read r n = .success (inc.slice r.bytes n) (inc.length_slice _ _) := by
  unfold read
  split
  next => rfl
  next f hf => rw [h] at hf; cases hf

/-- A fault gives its own code. -/
theorem read_rc_of_some {r : Reader} (n : Nat) {f : ReadFault} (h : inc.fault r.reads = some f) :
    (inc.read r n).rc = f.rc := by
  unfold read
  split
  next hf => rw [h] at hf; cases hf
  next g hg => rw [h] at hg; cases hg; rfl

/-- A read of a single byte that fails stores nothing. -/
theorem read_bytes_of_some {r : Reader} {f : ReadFault} (h : inc.fault r.reads = some f) :
    (inc.read r 1).bytes = [] := by
  unfold read
  split
  next hf => rw [h] at hf; cases hf
  next g hg => simp [ReadResult.bytes, slice]

theorem next_of_none {r : Reader} (n : Nat) (h : inc.fault r.reads = none) :
    inc.next r n = ⟨r.reads + 1, r.bytes + n⟩ := by
  simp [next, inc.read_of_none n h, ReadResult.bytes]

/-- A read into the buffer, as one step of the reader. -/
theorem run_netReadToBuffer (site : ReadSite) (off n : Nat) (r : Reader) (w : World) :
    (netReadToBuffer site off n).run inc.answer r w =
      (some (inc.read r n).rc, inc.next r n, w.filled site off (inc.read r n)) := rfl

/-- A read of a single byte, as one step of the reader. -/
theorem run_netReadByte (site : ReadSite) (r : Reader) (w : World) :
    (netReadByte site).run inc.answer r w =
      (some (if (inc.read r 1).rc = .success then .ok ((inc.read r 1).bytes.headD 0)
          else .error (inc.read r 1).rc),
        inc.next r 1, w.log (.netRead site 1 (inc.read r 1).rc (inc.read r 1).bytes)) := rfl

end Incoming

/-! ## What is stored and delivered -/

namespace Trace

/-- The places stored to in the receive buffer: offset and length. -/
def stores : Trace → List (Nat × Nat)
  | [] => []
  | .stored off n :: t => (off, n) :: stores t
  | _ :: t => stores t

/-- No byte is stored at an index from `size` on. -/
def StoresBelow (t : Trace) (size : Nat) : Prop :=
  ∀ off n, (off, n) ∈ t.stores → ∀ i, off ≤ i → i < off + n → i < size

/-- The number of calls of message handlers. -/
def deliveries : Trace → Nat
  | [] => 0
  | .delivered _ _ _ _ :: t => deliveries t + 1
  | _ :: t => deliveries t

end Trace

/-! ## Packets -/

namespace Incoming

variable (inc : Incoming)

/-- The header and a length field of `n` bytes arrive, and the field announces
a body of `len` bytes, a `size_t`. -/
structure Announces (n len : Nat) : Prop where
  arrives : ∀ i ≤ n, inc.fault i = none
  pos : 0 < n
  more : ∀ i, 0 < i → i < n → 128 ≤ (inc.stream i).toNat
  last : (inc.stream n).toNat < 128
  len_eq : len = lengthValue (inc.slice 1 n) % 2 ^ 64

/-- The run that reads one packet from the start of the stream. -/
def readPacket (c : Client) (fuel : Nat) : Option (Except IotError UInt8) × Reader × World :=
  (internalReadPacket fuel).run inc.answer ⟨0, 0⟩ ⟨c, [], []⟩

/-- The run that reads one packet and dispatches it. -/
def cycleRead (c : Client) (fuel : Nat) (call : Call → M IotError) (timer : TimerName) :
    Option (IotError × Option UInt8) × Reader × World :=
  (internalCycleRead fuel call timer).run inc.answer ⟨0, 0⟩ ⟨c, [], []⟩

/-- No byte is stored past the receive buffer, and a packet that does not fit
into it, header and length field included, is answered with
`MQTT_RX_BUFFER_TOO_SHORT_ERROR`, drained whole unless a read fails, and not
delivered. -/
structure ReadsSafely (c : Client) : Prop where
  below : ∀ fuel, (inc.readPacket c fuel).2.2.trace.StoresBelow c.readBufSize
  refused : ∀ n len, inc.Announces n len → c.readBufSize < 1 + n + len →
    ∃ enough, ∀ fuel, enough ≤ fuel →
      (inc.readPacket c fuel).1 = some (.error .mqttRxBufferTooShortError) ∧
        ((∀ i < (inc.readPacket c fuel).2.1.reads, inc.fault i = none) →
          (inc.readPacket c fuel).2.1.bytes = 1 + n + len)
  undelivered : ∀ n len, inc.Announces n len → c.readBufSize < 1 + n + len →
    ∀ fuel call timer, (inc.cycleRead c fuel call timer).2.2.trace.deliveries = 0

/-- The header fails to arrive; or there is room for it, and a packet whose
body alone is smaller than the buffer fits into it with its header and length
field. -/
def SizeTestExact (size : Nat) : Prop :=
  inc.fault 0 ≠ none ∨
    0 < size ∧ ∀ n len, inc.Announces n len → len < size → 1 + n + len ≤ size

/-! ## The remaining length -/

/-- Nothing past the buffer has been stored, and nothing delivered. -/
structure Safe (size : Nat) (w : World) : Prop where
  size_eq : w.client.readBufSize = size
  below : w.trace.StoresBelow size
  undelivered : w.trace.deliveries = 0

theorem Safe.start (c : Client) : Safe c.readBufSize ⟨c, [], []⟩ where
  size_eq := rfl
  below := by rintro off n ⟨⟩
  undelivered := rfl

theorem Safe.log_netRead {size : Nat} {w : World} (h : Safe size w) (site : ReadSite) (n : Nat)
    (rc : IotError) (bytes : List UInt8) : Safe size (w.log (.netRead site n rc bytes)) :=
  ⟨h.size_eq, h.below, h.undelivered⟩

theorem Safe.log_countdown {size : Nat} {w : World} (h : Safe size w) (timer : TimerName)
    (duration : UInt32) : Safe size (w.log (.countdown timer duration)) :=
  ⟨h.size_eq, h.below, h.undelivered⟩

/-- Storing what was read is safe if it fits into the buffer. -/
theorem Safe.filled {size : Nat} {w : World} (h : Safe size w) (site : ReadSite) {off n : Nat}
    (r : ReadResult n) (hfits : r.bytes ≠ [] → off + r.bytes.length ≤ size) :
    Safe size (w.filled site off r) where
  size_eq := h.size_eq
  undelivered := h.undelivered
  below := by
    intro off' n' hmem i hge hlt
    cases hmem with
    | head =>
        have hne : r.bytes ≠ [] := by
          intro hnil
          rw [hnil, List.length_nil] at hlt
          omega
        have := hfits hne
        omega
    | tail _ hmem => exact h.below off' n' hmem i hge hlt

/-- Storing the length field is safe if it fits behind the header. -/
theorem Safe.withLength {size : Nat} {w : World} (h : Safe size w) {field : List UInt8}
    (hfits : 1 + field.length ≤ size) : Safe size (w.withLength field) where
  size_eq := h.size_eq
  undelivered := h.undelivered
  below := by
    intro off n hmem i hge hlt
    cases hmem with
    | head => omega
    | tail _ hmem => exact h.below off n hmem i hge hlt

/-- The first `i` bytes of the length field have arrived, and more follow. -/
structure Reading (i : Nat) : Prop where
  arrived : ∀ j ≤ i, inc.fault j = none
  more : ∀ j, 0 < j → j ≤ i → 128 ≤ (inc.stream j).toNat

/-- A length field that is still being read is longer than what was read of it. -/
theorem Announces.gt {i n len : Nat} (h : inc.Announces n len) (hi : inc.Reading i) : i < n := by
  by_contra hle
  have := hi.more n h.pos (by omega)
  have := h.last
  omega

/-- What the variables of the decoding loop hold after `i` bytes. -/
structure Progress (i : Nat) (p : LengthProgress) : Prop where
  len_le : p.len ≤ 1
  multiplier_eq : p.multiplier = 128 ^ i % 2 ^ 64
  remLen_eq : p.remLen = lengthValue (inc.slice 1 i) % 2 ^ 64

/-- The value of one digit more. -/
theorem Progress.remLen_succ {i : Nat} {p : LengthProgress} (h : inc.Progress i p) :
    (p.remLen + (inc.stream (1 + i)).toNat % 128 * p.multiplier) % 2 ^ 64 =
      lengthValue (inc.slice 1 (i + 1)) % 2 ^ 64 := by
  rw [h.remLen_eq, h.multiplier_eq, slice_succ, lengthValue_concat, length_slice, Nat.add_mod,
    Nat.mod_mod, Nat.mul_mod, Nat.mod_mod, ← Nat.mul_mod, ← Nat.add_mod]

/-- One digit more has been read. -/
theorem Progress.succ {i : Nat} {p : LengthProgress} (h : inc.Progress i p) :
    inc.Progress (i + 1) ⟨1, p.multiplier * 128 % 2 ^ 64,
      (p.remLen + (inc.stream (1 + i)).toNat % 128 * p.multiplier) % 2 ^ 64⟩ where
  len_le := Nat.le_refl 1
  multiplier_eq := by
    show p.multiplier * 128 % 2 ^ 64 = 128 ^ (i + 1) % 2 ^ 64
    rw [h.multiplier_eq, Nat.mod_mul_mod, ← Nat.pow_succ]
  remLen_eq := h.remLen_succ

/-- How decoding the length field can end within `fuel` turns, `i` bytes having been read. -/
inductive Decoded (size i fuel : Nat) : Option (Except IotError Nat) × Reader × World → Prop
  | ended {n len : Nat} {w : World} (hannounces : inc.Announces n len) (hsafe : Safe size w) :
      Decoded size i fuel (some (.ok len), ⟨1 + n, 1 + n⟩, w)
  | failed {rc : IotError} {r : Reader} {w : World} (hnone : ∀ n len, ¬ inc.Announces n len)
      (hsafe : Safe size w) : Decoded size i fuel (some (.error rc), r, w)
  | unfinished {r : Reader} {w : World} (hfuel : ∀ n len, inc.Announces n len → i + fuel < n)
      (hsafe : Safe size w) : Decoded size i fuel (none, r, w)

theorem Decoded.of_eq {size i i' fuel fuel' : Nat}
    {x : Option (Except IotError Nat) × Reader × World} (h : inc.Decoded size i fuel x)
    (heq : i + fuel = i' + fuel') : inc.Decoded size i' fuel' x := by
  cases h with
  | ended hannounces hsafe => exact .ended hannounces hsafe
  | failed hnone hsafe => exact .failed hnone hsafe
  | unfinished hfuel hsafe => exact .unfinished (fun n len h => heq ▸ hfuel n len h) hsafe

/-- The loop ends with the field, at a fault or for lack of fuel; by induction on the fuel. -/
theorem decoded_loop {size i : Nat} {p : LengthProgress} {w : World} (fuel : Nat)
    (hi : inc.Reading i) (hp : inc.Progress i p) (hw : Safe size w) :
    inc.Decoded size i fuel ((Program.loop decodePacketRemainingLenStep fuel p).run inc.answer
      ⟨1 + i, 1 + i⟩ w) := by
  induction fuel generalizing i p w with
  | zero => exact .unfinished (fun n len h => h.gt inc hi) hw
  | succ fuel ih =>
      have hlen : ¬ p.len + 1 > maxNoOfRemainingLengthBytes := by
        have := hp.len_le
        simp only [maxNoOfRemainingLengthBytes]
        omega
      simp only [Program.loop, decodePacketRemainingLenStep, if_neg hlen, Program.run_bind,
        inc.run_netReadByte]
      cases hfault : inc.fault (1 + i) with
      | some f =>
          have hrc : (inc.read ⟨1 + i, 1 + i⟩ 1).rc ≠ .success := by
            rw [inc.read_rc_of_some 1 hfault]
            exact f.rc_ne
          simp only [if_neg hrc]
          refine .failed (fun n len h => ?_) (hw.log_netRead _ _ _ _)
          have hgt := h.gt inc hi
          rw [h.arrives (1 + i) (by omega)] at hfault
          cases hfault
      | none =>
          have hread := inc.read_of_none (r := ⟨1 + i, 1 + i⟩) 1 hfault
          have hnext : inc.next ⟨1 + i, 1 + i⟩ 1 = ⟨1 + (i + 1), 1 + (i + 1)⟩ := by
            rw [inc.next_of_none (r := ⟨1 + i, 1 + i⟩) 1 hfault]
            simp only [Nat.add_assoc]
          have hbyte : (inc.slice (1 + i) 1).headD 0 = inc.stream (1 + i) := rfl
          -- one more byte has arrived, with its highest bit set or as the last one
          have harrived : ∀ j ≤ i + 1, inc.fault j = none := by
            intro j hj
            rcases Nat.lt_or_eq_of_le hj with hlt | rfl
            · exact hi.arrived j (by omega)
            · rwa [Nat.add_comm]
          simp only [hnext, hread, ReadResult.rc, ReadResult.bytes, if_true, hbyte]
          by_cases hlast : (inc.stream (1 + i)).toNat < 128
          · simp only [if_pos hlast, Program.pure_eq, Program.run_ret]
            refine .ended ⟨harrived, Nat.succ_pos i, ?_, ?_, hp.remLen_succ⟩
              (hw.log_netRead _ _ _ _)
            · exact fun j hpos hlt => hi.more j hpos (by omega)
            · rwa [Nat.add_comm]
          · simp only [if_neg hlast, Program.pure_eq, Program.run_ret]
            have hreading : inc.Reading (i + 1) := by
              refine ⟨harrived, fun j hpos hj => ?_⟩
              rcases Nat.lt_or_eq_of_le hj with hlt | rfl
              · exact hi.more j hpos (by omega)
              · rw [Nat.add_comm]
                omega
            have hloop := ih hreading hp.succ (hw.log_netRead .length 1 .success
              (inc.slice (1 + i) 1))
            exact hloop.of_eq inc (Nat.succ_add_eq_add_succ i fuel)

/-! ## The drain loop -/

/-- What the variables of the drain loop hold before a read. -/
structure Draining (size remLen : Nat) (p : DrainProgress) : Prop where
  undone : p.totalBytesRead < remLen
  chunk : p.bytesToBeRead = min size (remLen - p.totalBytesRead)

/-- How draining a packet can end within `fuel` turns. -/
inductive Drained (size remLen fuel : Nat) (p : DrainProgress) (r : Reader) :
    Option Unit × Reader × World → Prop
  | ended {r' : Reader} {w : World} (hbytes : r'.bytes = r.bytes + (remLen - p.totalBytesRead))
      (hsafe : Safe size w) : Drained size remLen fuel p r (some (), r', w)
  | failed {r' : Reader} {w : World} (i : Nat) (hge : r.reads ≤ i) (hlt : i < r'.reads)
      (hfault : inc.fault i ≠ none) (hsafe : Safe size w) :
      Drained size remLen fuel p r (some (), r', w)
  | unfinished {r' : Reader} {w : World} (hfuel : fuel < remLen - p.totalBytesRead)
      (hsafe : Safe size w) : Drained size remLen fuel p r (none, r', w)

/-- A chunk that was drained goes in front of what is drained behind it. -/
theorem Drained.of_step {size remLen fuel : Nat} {p p' : DrainProgress} {r : Reader}
    {x : Option Unit × Reader × World} {n : Nat}
    (h : inc.Drained size remLen fuel p' ⟨r.reads + 1, r.bytes + n⟩ x)
    (hp : p'.totalBytesRead = p.totalBytesRead + n ∧ 0 < n ∧ p'.totalBytesRead < remLen) :
    inc.Drained size remLen (fuel + 1) p r x := by
  obtain ⟨htotal, hpos, hmore⟩ := hp
  cases h with
  | ended hbytes hsafe =>
      simp only at hbytes
      exact .ended (by omega) hsafe
  | failed i hge hlt hfault hsafe => exact .failed i (Nat.le_of_succ_le hge) hlt hfault hsafe
  | unfinished hfuel hsafe => exact .unfinished (by omega) hsafe

/-- The drain loop takes the rest of the packet in chunks of the buffer's size at most. -/
theorem drained_loop {size remLen : Nat} {p : DrainProgress} {r : Reader} {w : World} (fuel : Nat)
    (hsize : 0 < size) (hp : Draining size remLen p) (hw : Safe size w) :
    inc.Drained size remLen fuel p r
      ((Program.loop (drainStep remLen size) fuel p).run inc.answer r w) := by
  induction fuel generalizing p r w with
  | zero => exact .unfinished (Nat.sub_pos_of_lt hp.undone) hw
  | succ fuel ih =>
      have hundone := hp.undone
      have hchunk := hp.chunk
      have hfilled : Safe size (w.filled .drain 0 (inc.read r p.bytesToBeRead)) := by
        refine hw.filled _ _ fun _ => ?_
        have := (inc.read r p.bytesToBeRead).length_bytes_le
        omega
      simp only [Program.loop, drainStep, Program.run_bind, inc.run_netReadToBuffer]
      cases hfault : inc.fault r.reads with
      | some f =>
          have hrc : (inc.read r p.bytesToBeRead).rc ≠ .success := by
            rw [inc.read_rc_of_some _ hfault]
            exact f.rc_ne
          simp only [if_neg hrc, Program.pure_eq, Program.run_ret]
          exact .failed r.reads (Nat.le_refl _) (Nat.lt_succ_self _) (by simp [hfault]) hfilled
      | none =>
          have hrc : (inc.read r p.bytesToBeRead).rc = .success := by
            rw [inc.read_of_none _ hfault]
            rfl
          simp only [if_pos hrc, inc.next_of_none _ hfault]
          -- another chunk, or the end of the packet
          by_cases hmore : p.totalBytesRead + p.bytesToBeRead < remLen
          · simp only [if_pos hmore, Program.pure_eq, Program.run_ret]
            have hpos : 0 < p.bytesToBeRead := by omega
            refine (ih ⟨hmore, ?_⟩ hfilled).of_step inc ⟨rfl, hpos, hmore⟩
            simp only
            split <;> omega
          · simp only [if_neg hmore, Program.pure_eq, Program.run_ret]
            have hall : p.bytesToBeRead = remLen - p.totalBytesRead := by omega
            exact .ended (by simp only [hall]) hfilled

/-! ## One packet -/

/-- A stream announces one length only. -/
theorem Announces.unique {n n' len len' : Nat} (h : inc.Announces n len)
    (h' : inc.Announces n' len') : n = n' ∧ len = len' := by
  have hn : n = n' := by
    rcases Nat.lt_trichotomy n n' with hlt | heq | hgt
    · have := h'.more n h.pos hlt
      have := h.last
      omega
    · exact heq
    · have := h.more n' h'.pos hgt
      have := h'.last
      omega
  subst hn
  exact ⟨rfl, h.len_eq.trans h'.len_eq.symm⟩

/-- The length is written back with no more bytes than it was read with. -/
theorem Announces.length_field_le {n len : Nat} (h : inc.Announces n len) :
    (writeLenToBuffer len).length ≤ n := by
  refine length_writeLenToBuffer_le len n h.pos ?_
  rw [h.len_eq]
  refine Nat.lt_of_le_of_lt (Nat.mod_le _ _) ?_
  simpa using lengthValue_lt (inc.slice 1 n)

/-- The world when the header has been read. -/
def headed (c : Client) : World :=
  ((⟨c, [], []⟩ : World).log (.countdown .packet c.packetTimeoutMs)).filled .header 0
    (inc.read ⟨0, 0⟩ 1)

/-- A packet whose header does not arrive is not read. -/
theorem readPacket_of_fault (c : Client) (fuel : Nat) {f : ReadFault} (h : inc.fault 0 = some f) :
    ∃ rc, inc.readPacket c fuel = (some (.error rc), inc.next ⟨0, 0⟩ 1, inc.headed c) := by
  have hrc : (inc.read ⟨0, 0⟩ 1).rc ≠ .success := by
    rw [inc.read_rc_of_some 1 h]
    exact f.rc_ne
  by_cases hnothing : (inc.read ⟨0, 0⟩ 1).rc = .networkSslNothingToRead
  · refine ⟨.mqttNothingToRead, ?_⟩
    simp [readPacket, internalReadPacket, getClient, countdown, emit, Program.atomically,
      Program.modify, Program.run_bind, inc.run_netReadToBuffer, hnothing, headed]
  · refine ⟨(inc.read ⟨0, 0⟩ 1).rc, ?_⟩
    simp [readPacket, internalReadPacket, getClient, countdown, emit, Program.atomically,
      Program.modify, Program.run_bind, inc.run_netReadToBuffer, hnothing, hrc, headed]

/-- What `internalReadPacket` does behind the length field. -/
def afterLength (fuel : Nat) : Except IotError Nat → M (Except IotError UInt8)
  | .error rc => return .error rc
  | .ok remLen => readPacketOfLength fuel remLen

/-- Behind the header, the length comes first and decides about the rest. -/
theorem readPacket_of_header (c : Client) (fuel : Nat) (h : inc.fault 0 = none) :
    inc.readPacket c fuel =
      (decodePacketRemainingLen fuel >>= afterLength fuel).run inc.answer ⟨1, 1⟩
        (inc.headed c) := by
  have hrc : (inc.read ⟨0, 0⟩ 1).rc = .success := by
    rw [inc.read_of_none 1 h]
    rfl
  have hnext : inc.next ⟨0, 0⟩ 1 = ⟨1, 1⟩ := inc.next_of_none 1 h
  simp only [readPacket, internalReadPacket, getClient, countdown, emit, Program.atomically,
    Program.modify, Program.act_bind, Program.ret_bind, Program.run_act,
    Program.run_bind_of_some _ (inc.run_netReadToBuffer _ _ _ _ _), hrc, hnext]
  rfl

/-- The header may be stored if there is any room at all. -/
theorem safe_headed {c : Client} (h : 0 < c.readBufSize ∨ inc.fault 0 ≠ none) :
    Safe c.readBufSize (inc.headed c) := by
  refine ((Safe.start c).log_countdown _ _).filled _ _ fun hne => ?_
  have hle := (inc.read ⟨0, 0⟩ 1).length_bytes_le
  rcases h with hsize | hfault
  · omega
  · obtain ⟨f, hf⟩ := Option.ne_none_iff_exists'.mp hfault
    exact absurd (inc.read_bytes_of_some hf) hne

/-- The length is decoded behind the header. -/
theorem decoded_headed {c : Client} (fuel : Nat) (h : inc.fault 0 = none)
    (hsize : 0 < c.readBufSize) :
    inc.Decoded c.readBufSize 0 fuel
      ((decodePacketRemainingLen fuel).run inc.answer ⟨1, 1⟩ (inc.headed c)) := by
  refine inc.decoded_loop (i := 0) fuel ⟨?_, ?_⟩ ⟨Nat.zero_le 1, rfl, rfl⟩
    (inc.safe_headed (.inl hsize))
  · intro j hj
    rwa [Nat.le_zero.mp hj]
  · intro j hpos hj
    omega

/-- A packet that is larger than the buffer by its body alone. -/
theorem readPacketOfLength_of_ge {size remLen : Nat} {r : Reader} {w : World} (fuel : Nat)
    (hsize : 0 < size) (hge : size ≤ remLen) (hw : Safe size w) :
    let x := (readPacketOfLength fuel remLen).run inc.answer r w
    Safe size x.2.2 ∧
      (x.1 = none ∧ fuel < remLen ∨
        x.1 = some (.error .mqttRxBufferTooShortError) ∧
          ((∀ i, r.reads ≤ i → i < x.2.1.reads → inc.fault i = none) →
            x.2.1.bytes = r.bytes + remLen)) := by
  have hdrained := inc.drained_loop (p := ⟨0, size⟩) (r := r) fuel hsize
    ⟨Nat.lt_of_lt_of_le hsize hge, (Nat.min_eq_left hge).symm⟩ hw
  simp only [readPacketOfLength, getClient, Program.atomically, Program.act_bind,
    Program.ret_bind, Program.run_act, id_eq, hw.size_eq, if_pos hge, Program.run_bind]
  generalize hx : (Program.loop (drainStep remLen size) fuel ⟨0, size⟩).run inc.answer r w = x
    at hdrained
  cases hdrained with
  | ended hbytes hsafe => exact ⟨hsafe, .inr ⟨rfl, fun _ => hbytes⟩⟩
  | failed i hge hlt hfault hsafe =>
      exact ⟨hsafe, .inr ⟨rfl, fun hall => absurd (hall i hge hlt) hfault⟩⟩
  | unfinished hfuel hsafe => exact ⟨hsafe, .inl ⟨rfl, hfuel⟩⟩

/-- The body is stored safely if it fits behind the length. -/
theorem run_readRemaining (size off remLen : Nat) (r : Reader) (w : World) :
    ∃ rc r' w', (readRemaining off remLen).run inc.answer r w = (some rc, r', w') ∧
      (Safe size w → off + remLen ≤ size → Safe size w') := by
  by_cases hpos : remLen > 0
  · rw [readRemaining, if_pos hpos, inc.run_netReadToBuffer]
    refine ⟨_, _, _, rfl, fun hw hfits => hw.filled .body _ fun _ => ?_⟩
    have := (inc.read r remLen).length_bytes_le
    omega
  · rw [readRemaining, if_neg hpos]
    exact ⟨.success, r, w, rfl, fun hw _ => hw⟩

/-- A body that is read is not refused for its size. -/
theorem run_readPacketBody (size remLen : Nat) (r : Reader) (w : World) :
    ∃ res r' w', (readPacketBody remLen).run inc.answer r w = (some res, r', w') ∧
      res ≠ .error .mqttRxBufferTooShortError ∧
      (Safe size w → 1 + (writeLenToBuffer remLen).length + remLen ≤ size → Safe size w') := by
  obtain ⟨rc, r₁, w₁, hrun, hsafe⟩ := inc.run_readRemaining size
    (1 + (writeLenToBuffer remLen).length) remLen r (w.withLength (writeLenToBuffer remLen))
  have hw₁ : Safe size w → 1 + (writeLenToBuffer remLen).length + remLen ≤ size →
      Safe size w₁ := fun hw hfits => hsafe (hw.withLength (by omega)) hfits
  simp only [readPacketBody, Program.modify, Program.act_bind, Program.ret_bind,
    Program.run_act, Program.run_bind_of_some _ hrun]
  by_cases hrc : rc = .success
  · rw [if_pos hrc]
    refine ⟨_, _, _, rfl, by simp, fun hw hfits => ?_⟩
    exact ⟨(hw₁ hw hfits).size_eq, (hw₁ hw hfits).below, (hw₁ hw hfits).undelivered⟩
  · rw [if_neg hrc]
    exact ⟨_, _, _, rfl, by simp, hw₁⟩

/-- A packet whose body alone is smaller than the buffer is read, whether or
not there is room for the rest of it. -/
theorem readPacketOfLength_of_lt {remLen : Nat} {w : World} (fuel : Nat) (r : Reader)
    (hlt : remLen < w.client.readBufSize) :
    (readPacketOfLength fuel remLen).run inc.answer r w =
      (readPacketBody remLen).run inc.answer r w := by
  simp only [readPacketOfLength, getClient, Program.atomically, Program.act_bind,
    Program.ret_bind, Program.run_act, id_eq, if_neg (Nat.not_le.mpr hlt)]

/-- A run that reads one packet keeps to the buffer, and refuses the packet if
it does not fit. -/
structure Sound (c : Client) (fuel : Nat)
    (x : Option (Except IotError UInt8) × Reader × World) : Prop where
  safe : Safe c.readBufSize x.2.2
  refused : ∀ n len, inc.Announces n len → c.readBufSize < 1 + n + len →
    x.1 = none ∧ fuel < n + len ∨
      x.1 = some (.error .mqttRxBufferTooShortError) ∧
        ((∀ i < x.2.1.reads, inc.fault i = none) → x.2.1.bytes = 1 + n + len)

/-- If the size test is exact for the stream, reading a packet is sound. -/
theorem sound_of_sizeTestExact {c : Client} (h : inc.SizeTestExact c.readBufSize) (fuel : Nat) :
    inc.Sound c fuel (inc.readPacket c fuel) := by
  cases hfault : inc.fault 0 with
  | some f =>
      obtain ⟨rc, hrun⟩ := inc.readPacket_of_fault c fuel hfault
      rw [hrun]
      refine ⟨inc.safe_headed (.inr (by simp [hfault])), fun n len hannounces => ?_⟩
      have := hannounces.arrives 0 (Nat.zero_le n)
      rw [hfault] at this
      cases this
  | none =>
      obtain ⟨hsize, hfits⟩ : 0 < c.readBufSize ∧
          ∀ n len, inc.Announces n len → len < c.readBufSize → 1 + n + len ≤ c.readBufSize := by
        rcases h with hne | h
        · exact absurd hfault hne
        · exact h
      have hdecoded := inc.decoded_headed fuel hfault hsize
      rw [inc.readPacket_of_header c fuel hfault, Program.run_bind]
      generalize (decodePacketRemainingLen fuel).run inc.answer ⟨1, 1⟩ (inc.headed c) = x
        at hdecoded
      cases hdecoded with
      | failed hnone hsafe => exact ⟨hsafe, fun n len h => absurd h (hnone n len)⟩
      | unfinished hfuel hsafe =>
          refine ⟨hsafe, fun n len h _ => .inl ⟨rfl, ?_⟩⟩
          have := hfuel n len h
          omega
      | @ended n len w hannounces hsafe =>
          -- the size test decides: the packet is drained, or fits as a whole
          by_cases hge : c.readBufSize ≤ len
          · obtain ⟨hsafe', hresult⟩ :=
              inc.readPacketOfLength_of_ge (r := ⟨1 + n, 1 + n⟩) fuel hsize hge hsafe
            refine ⟨hsafe', fun n' len' h' _ => ?_⟩
            obtain ⟨rfl, rfl⟩ := hannounces.unique inc h'
            rcases hresult with ⟨hnone, hfuel⟩ | ⟨hrc, hbytes⟩
            · exact .inl ⟨hnone, by omega⟩
            · exact .inr ⟨hrc, fun hall => hbytes fun i _ hi => hall i hi⟩
          · have hfits' := hfits n len hannounces (Nat.not_le.mp hge)
            have hfield := hannounces.length_field_le
            obtain ⟨res, r, w', hrun, -, hsafe'⟩ :=
              inc.run_readPacketBody c.readBufSize len ⟨1 + n, 1 + n⟩ w
            have hlt : len < w.client.readBufSize := hsafe.size_eq ▸ Nat.not_le.mp hge
            simp only [afterLength, inc.readPacketOfLength_of_lt fuel _ hlt, hrun]
            refine ⟨hsafe' hsafe (by omega), fun n' len' h' hlong => ?_⟩
            obtain ⟨rfl, rfl⟩ := hannounces.unique inc h'
            omega

theorem run_lockMutex (mutex : MutexName) (r : Reader) (w : World) :
    (lockMutex mutex).run inc.answer r w = (some .success, r, w) := by
  by_cases hthreads : w.client.threadSupport = true
  · simp [lockMutex, getClient, Program.atomically, Program.query, hthreads, answer]
  · simp [lockMutex, getClient, Program.atomically, hthreads]

theorem run_unlockMutex (mutex : MutexName) (r : Reader) (w : World) :
    (unlockMutex mutex).run inc.answer r w = (some .success, r, w) := by
  by_cases hthreads : w.client.threadSupport = true
  · simp [unlockMutex, getClient, Program.atomically, Program.query, hthreads, answer]
  · simp [unlockMutex, getClient, Program.atomically, hthreads]

/-- A packet that is refused is not dispatched. -/
theorem cycleRead_of_refused {c : Client} {fuel : Nat} (call : Call → M IotError)
    (timer : TimerName)
    (h : (inc.readPacket c fuel).1 = none ∨
      (inc.readPacket c fuel).1 = some (.error .mqttRxBufferTooShortError)) :
    (inc.cycleRead c fuel call timer).2.2 = (inc.readPacket c fuel).2.2 := by
  unfold cycleRead internalCycleRead
  rw [Program.run_bind_of_some _ (inc.run_lockMutex _ _ _), if_neg (by decide), Program.run_bind]
  unfold readPacket at h ⊢
  generalize (internalReadPacket fuel).run inc.answer ⟨0, 0⟩ ⟨c, [], []⟩ = x at h ⊢
  obtain ⟨res, r, w⟩ := x
  rcases h with rfl | rfl
  · rfl
  · simp only [Program.run_bind_of_some _ (inc.run_unlockMutex _ _ _)]
    rfl

/-- With it, so is a cycle. -/
theorem readsSafely_of_sizeTestExact {c : Client} (h : inc.SizeTestExact c.readBufSize) :
    inc.ReadsSafely c where
  below fuel := (inc.sound_of_sizeTestExact h fuel).safe.below
  refused n len hannounces hlong := by
    refine ⟨n + len, fun fuel hfuel => ?_⟩
    rcases (inc.sound_of_sizeTestExact h fuel).refused n len hannounces hlong with hnone | hrc
    · omega
    · exact hrc
  undelivered n len hannounces hlong fuel call timer := by
    have hsound := inc.sound_of_sizeTestExact h fuel
    rw [inc.cycleRead_of_refused call timer]
    · exact hsound.safe.undelivered
    · exact (hsound.refused n len hannounces hlong).imp And.left And.left

/-- Without room for the header, the header is stored out of bounds; and a
packet that only seems to fit is not refused. -/
theorem sizeTestExact_of_readsSafely {c : Client} (h : inc.ReadsSafely c) :
    inc.SizeTestExact c.readBufSize := by
  by_cases hfault : inc.fault 0 ≠ none
  · exact .inl hfault
  rw [not_not] at hfault
  have hsize : 0 < c.readBufSize := by
    have hbelow := h.below 0
    rw [inc.readPacket_of_header c 0 hfault] at hbelow
    refine hbelow 0 1 ?_ 0 (Nat.le_refl 0) Nat.one_pos
    have hlen : (inc.read ⟨0, 0⟩ 1).bytes.length = 1 := by
      rw [inc.read_of_none 1 hfault]
      rfl
    exact hlen ▸ List.mem_cons_self
  refine .inr ⟨hsize, fun n len hannounces hlt => ?_⟩
  by_contra hlong
  obtain ⟨enough, hrefused⟩ := h.refused n len hannounces (Nat.not_le.mp hlong)
  obtain ⟨hrc, -⟩ := hrefused (enough + n) (Nat.le_add_right _ _)
  rw [inc.readPacket_of_header c _ hfault, Program.run_bind] at hrc
  have hdecoded := inc.decoded_headed (enough + n) hfault hsize
  generalize (decodePacketRemainingLen (enough + n)).run inc.answer ⟨1, 1⟩ (inc.headed c) = x
    at hrc hdecoded
  cases hdecoded with
  | failed hnone => exact hnone n len hannounces
  | unfinished hfuel =>
      have := hfuel n len hannounces
      omega
  | @ended n' len' w hannounces' hsafe =>
      obtain ⟨rfl, rfl⟩ := hannounces.unique inc hannounces'
      obtain ⟨res, r, w', hrun, hres, -⟩ :=
        inc.run_readPacketBody c.readBufSize len ⟨1 + n, 1 + n⟩ w
      have hlt' : len < w.client.readBufSize := hsafe.size_eq ▸ hlt
      simp only [afterLength, inc.readPacketOfLength_of_lt _ _ hlt', hrun, Option.some.injEq] at hrc
      exact hres hrc

/-- Reading a packet keeps to the receive buffer, and refuses what does not fit
into it, exactly when the size test is exact. -/
theorem readsSafely_iff (c : Client) : inc.ReadsSafely c ↔ inc.SizeTestExact c.readBufSize :=
  ⟨inc.sizeTestExact_of_readsSafely, inc.readsSafely_of_sizeTestExact⟩

end Incoming

/-- A PUBLISH whose body is one byte smaller than the receive buffer. -/
def fullBody : Incoming where
  stream i := [0x30, 0xFF, 0xFF, 0x07].getD i 0
  fault _ := none

theorem fullBody_announces : fullBody.Announces 3 131071 where
  arrives _ _ := rfl
  pos := by decide
  more i hpos hlt := by
    interval_cases i <;> decide
  last := by decide
  len_eq := by decide

/-- It passes the size test of a client with the default buffer. -/
theorem not_readsSafely_fullBody : ¬ fullBody.ReadsSafely freshClient := by
  intro h
  rcases fullBody.sizeTestExact_of_readsSafely h with hfault | ⟨-, hfits⟩
  · exact hfault rfl
  · have := hfits 3 131071 fullBody_announces (by decide)
    exact absurd this (by decide)

end MqttClient
