import MqttClient.Session.ReadBounds
import MqttClient.Wire.Publications

/-! # Reading from a stream that never fails

Every read returns the bytes it was asked for. The decoder on the network is
then a function of the stream, like the one on a buffer, and successive calls
of `internalReadPacket` take a concatenation of packets apart.
-/

namespace MqttClient

open Effect

namespace Incoming

/-- A network that has the stream in store and returns all that is asked for. -/
def ofStream (stream : Memory) : Incoming := ⟨stream, fun _ => none⟩

variable {stream : Memory}

variable (stream) in
theorem run_netReadToBuffer_ofStream (site : ReadSite) (off n : Nat) (r : Reader) (w : World) :
    ∃ res : ReadResult n, (netReadToBuffer site off n).run (ofStream stream).answer r w =
        (some .success, ⟨r.reads + 1, r.bytes + n⟩, w.filled site off res) ∧
      res.bytes = stream.load r.bytes n := by
  have hread := (ofStream stream).read_of_none (r := r) n rfl
  refine ⟨(ofStream stream).read r n, ?_, ?_⟩
  · rw [run_netReadToBuffer, (ofStream stream).next_of_none n rfl, hread]
    rfl
  · rw [hread]
    rfl

theorem run_netReadByte_ofStream (site : ReadSite) (r : Reader) (w : World) :
    (netReadByte site).run (ofStream stream).answer r w =
      (some (.ok (stream r.bytes)), ⟨r.reads + 1, r.bytes + 1⟩,
        w.log (.netRead site 1 .success [stream r.bytes])) := by
  rw [run_netReadByte, (ofStream stream).next_of_none 1 rfl,
    (ofStream stream).read_of_none (r := r) 1 rfl]
  rfl

/-! ## The two decoders -/

/-- How decoding a field of `n` bytes that spells `value` can end within `fuel` turns. -/
inductive Decodes (n value fuel : Nat) (r : Reader) (w : World) :
    Option (Except IotError Nat) × Reader × World → Prop
  | ended {w' : World} (henough : n ≤ fuel) (hclient : w'.client = w.client) :
      Decodes n value fuel r w (some (.ok value), ⟨r.reads + n, r.bytes + n⟩, w')
  | unfinished {w' : World} (hfuel : fuel < n) :
      Decodes n value fuel r w (none, ⟨r.reads + fuel, r.bytes + fuel⟩, w')

theorem Decodes.succ {n value fuel : Nat} {r : Reader} {w w' : World}
    {x : Option (Except IotError Nat) × Reader × World}
    (h : Decodes n value fuel ⟨r.reads + 1, r.bytes + 1⟩ w' x) (hclient : w'.client = w.client) :
    Decodes (n + 1) value (fuel + 1) r w x := by
  cases h with
  | ended henough hclient' =>
      rw [Nat.add_right_comm, Nat.add_right_comm r.bytes]
      exact .ended (Nat.succ_le_succ henough) (hclient'.trans hclient)
  | unfinished hfuel =>
      rw [Nat.add_right_comm, Nat.add_right_comm r.bytes]
      exact .unfinished (Nat.succ_lt_succ hfuel)

/-- The read resets the counter in every turn, so the loop goes on to the end of the field. -/
theorem run_decodeLoop {field : List UInt8} {p : LengthProgress} {r : Reader} (fuel : Nat)
    (w : World) (hfield : isLengthField field = true) (hlen : p.len ≤ 1)
    (hstream : stream.load r.bytes field.length = field) :
    Decodes field.length ((p.remLen + lengthValue field * p.multiplier) % 2 ^ 64) fuel r w
      ((Program.loop decodePacketRemainingLenStep fuel p).run (ofStream stream).answer r w) := by
  induction field generalizing p r w fuel with
  | nil => cases hfield
  | cons b field ih =>
      cases fuel with
      | zero => exact .unfinished (Nat.succ_pos _)
      | succ fuel =>
          have hcount : ¬ p.len + 1 > maxNoOfRemainingLengthBytes := by
            simp only [maxNoOfRemainingLengthBytes]
            omega
          rw [List.length_cons, Memory.load_succ] at hstream
          obtain ⟨hb, hrest⟩ := List.cons.inj hstream
          simp only [Program.loop, decodePacketRemainingLenStep, if_neg hcount, Program.run_bind,
            run_netReadByte_ofStream, hb]
          rcases isLengthField_cons hfield with ⟨rfl, hlast⟩ | ⟨hmore, hfield⟩
          · simp only [if_pos hlast, Program.pure_eq, Program.run_ret, lengthValue_cons,
              lengthValue_nil, List.length_cons, List.length_nil]
            exact .ended (Nat.succ_le_succ (Nat.zero_le _)) rfl
          · -- sum and multiplier wrap, here and in the rest of the loop
            have hvalue : ((p.remLen + b.toNat % 128 * p.multiplier) % 2 ^ 64 +
                lengthValue field * (p.multiplier * 128 % 2 ^ 64)) % 2 ^ 64 =
                (p.remLen + lengthValue (b :: field) * p.multiplier) % 2 ^ 64 := by
              have hsum : p.remLen + lengthValue (b :: field) * p.multiplier =
                  p.remLen + b.toNat % 128 * p.multiplier +
                    lengthValue field * (p.multiplier * 128) := by
                rw [lengthValue_cons]
                ring
              rw [hsum, Nat.mod_add_mod, Nat.add_mod, Nat.mul_mod_mod, ← Nat.add_mod]
            simp only [if_neg (Nat.not_lt.mpr hmore), Program.pure_eq, Program.run_ret]
            rw [← hvalue]
            have hrun := ih (r := ⟨r.reads + 1, r.bytes + 1⟩)
              (p := ⟨1, p.multiplier * 128 % 2 ^ 64,
                (p.remLen + b.toNat % 128 * p.multiplier) % 2 ^ 64⟩)
              fuel (w.log (.netRead .length 1 .success [b])) hfield (Nat.le_refl 1) hrest
            exact hrun.succ rfl

/-- No byte of the stream makes the decoder fail. -/
theorem run_decodeLoop_ne_error (fuel : Nat) {p : LengthProgress} (r : Reader) (w : World)
    (hlen : p.len ≤ 1) (rc : IotError) :
    ((Program.loop decodePacketRemainingLenStep fuel p).run (ofStream stream).answer r w).1 ≠
      some (.error rc) := by
  induction fuel generalizing p r w with
  | zero => rintro ⟨⟩
  | succ fuel ih =>
      have hcount : ¬ p.len + 1 > maxNoOfRemainingLengthBytes := by
        simp only [maxNoOfRemainingLengthBytes]
        omega
      simp only [Program.loop, decodePacketRemainingLenStep, if_neg hcount, Program.run_bind,
        run_netReadByte_ofStream]
      by_cases hlast : (stream r.bytes).toNat < 128
      · simp only [if_pos hlast, Program.pure_eq, Program.run_ret]
        simp
      · simp only [if_neg hlast, Program.pure_eq, Program.run_ret]
        exact ih _ _ (Nat.le_refl 1)

/-- The decoder on the network, at the start of a stream. -/
def decodeFromNetwork (stream : Memory) (fuel : Nat) (w : World) :
    Option (Except IotError Nat) × Reader × World :=
  (decodePacketRemainingLen fuel).run (ofStream stream).answer ⟨0, 0⟩ w

/-- Both decoders accept the same field with the same value, take at most four
bytes, and reject four bytes that all announce another one. -/
structure DecodersAgree (stream : Memory) (w : World) : Prop where
  terminates : ∃ fuel, (decodeFromNetwork stream fuel w).1 ≠ none
  value : ∀ fuel res, (decodeFromNetwork stream fuel w).1 = some res →
    res = (decodeRemainingLengthFromBuffer stream 0).map Prod.fst
  taken : ∀ fuel v n, decodeRemainingLengthFromBuffer stream 0 = .ok (v, n) →
    (decodeFromNetwork stream fuel w).1 ≠ none → (decodeFromNetwork stream fuel w).2.1.bytes = n
  bounded : ∀ fuel, (decodeFromNetwork stream fuel w).2.1.bytes ≤ maxNoOfRemainingLengthBytes
  boundedBuffer : ∀ v n, decodeRemainingLengthFromBuffer stream 0 = .ok (v, n) →
    n ≤ maxNoOfRemainingLengthBytes
  rejected : (∀ i < maxNoOfRemainingLengthBytes, 128 ≤ (stream i).toNat) →
    decodeRemainingLengthFromBuffer stream 0 = .error .mqttDecodeRemainingLengthError ∧
      ∀ fuel res, (decodeFromNetwork stream fuel w).1 = some res →
        res = .error .mqttDecodeRemainingLengthError

/-- One of the first four bytes ends the field. -/
def EndsInTime (stream : Memory) : Prop :=
  ∃ i < maxNoOfRemainingLengthBytes, (stream i).toNat < 128

/-- A stream that ends its field in time begins with one of at most four bytes. -/
theorem exists_field_of_endsInTime (h : EndsInTime stream) :
    ∃ field, isLengthField field = true ∧ field.length ≤ maxNoOfRemainingLengthBytes ∧
      stream.load 0 field.length = field := by
  obtain ⟨i, hi, hend⟩ := h
  have hexists : ∃ i, (stream i).toNat < 128 := ⟨i, hend⟩
  refine ⟨stream.load 0 (Nat.find hexists + 1), ?_, ?_, ?_⟩
  · apply isLengthField_load
    · intro j hj
      rw [Nat.zero_add]
      exact Nat.not_lt.mp (Nat.find_min hexists hj)
    · rw [Nat.zero_add]
      exact Nat.find_spec hexists
  · have hle := Nat.find_min' hexists hend
    rw [Memory.length_load]
    omega
  · rw [Memory.length_load]

theorem decodersAgree_of_field {field : List UInt8} (w : World)
    (hfield : isLengthField field = true)
    (hlength : field.length ≤ maxNoOfRemainingLengthBytes)
    (hstream : stream.load 0 field.length = field) : DecodersAgree stream w := by
  -- the decoder of the buffer has this answer; the other is run with any fuel
  have hbuffer := decodeRemainingLengthFromBuffer_of_isLengthField hfield hlength hstream
  have hvalue : (0 + lengthValue field * 1) % 2 ^ 64 = lengthValue field := by
    have hlt : lengthValue field < 2 ^ 64 := by
      refine Nat.lt_of_lt_of_le (lengthValue_lt field) ?_
      exact Nat.le_trans (Nat.pow_le_pow_right (by decide) hlength) (by decide)
    rw [Nat.zero_add, Nat.mul_one, Nat.mod_eq_of_lt hlt]
  have hruns : ∀ fuel, Decodes field.length (lengthValue field) fuel ⟨0, 0⟩ w
      (decodeFromNetwork stream fuel w) := by
    intro fuel
    have hrun := run_decodeLoop (p := ⟨0, 1, 0⟩) (r := ⟨0, 0⟩) fuel w hfield (Nat.zero_le 1) hstream
    rwa [hvalue] at hrun
  refine ⟨⟨field.length, ?_⟩, ?_, ?_, ?_, ?_, ?_⟩
  · have hrun := hruns field.length
    generalize decodeFromNetwork stream field.length w = x at hrun
    cases hrun with
    | ended => exact nofun
    | unfinished hfuel => exact absurd hfuel (Nat.lt_irrefl _)
  · intro fuel res hres
    have hrun := hruns fuel
    generalize decodeFromNetwork stream fuel w = x at hrun hres
    cases hrun with
    | ended =>
        cases hres
        rw [hbuffer]
        rfl
    | unfinished => cases hres
  · intro fuel v n hok hne
    have hrun := hruns fuel
    rw [hbuffer] at hok
    cases hok
    generalize decodeFromNetwork stream fuel w = x at hrun hne
    cases hrun with
    | ended => exact Nat.zero_add _
    | unfinished => exact absurd rfl hne
  · intro fuel
    have hrun := hruns fuel
    generalize decodeFromNetwork stream fuel w = x at hrun
    cases hrun with
    | ended => simpa using hlength
    | unfinished hfuel =>
        simp only [Nat.zero_add]
        omega
  · intro v n hok
    rw [hbuffer] at hok
    cases hok
    exact hlength
  · -- the field ends among the four bytes
    intro hmore
    have herror : decodeLenLoop stream maxNoOfRemainingLengthBytes 0 1 0 =
        .error .mqttDecodeRemainingLengthError :=
      decodeLenLoop_of_more 1 0 (by simpa only [Nat.zero_add] using hmore)
    cases hbuffer.symm.trans herror

theorem endsInTime_of_decodersAgree {w : World} (h : DecodersAgree stream w) :
    EndsInTime stream := by
  by_contra hends
  have hmore : ∀ i < maxNoOfRemainingLengthBytes, 128 ≤ (stream i).toNat := by
    intro i hi
    by_contra hlt
    exact hends ⟨i, hi, Nat.not_le.mp hlt⟩
  obtain ⟨fuel, hne⟩ := h.terminates
  obtain ⟨res, hres⟩ := Option.ne_none_iff_exists'.mp hne
  have herror := (h.rejected hmore).2 fuel res hres
  rw [herror] at hres
  exact run_decodeLoop_ne_error fuel ⟨0, 0⟩ w (p := ⟨0, 1, 0⟩) (Nat.zero_le 1) _ hres

/-- The decoders agree on the streams that end their field in time, and on no others. -/
theorem decodersAgree_iff (stream : Memory) (w : World) :
    DecodersAgree stream w ↔ EndsInTime stream := by
  constructor
  · exact endsInTime_of_decodersAgree
  · intro h
    obtain ⟨field, hfield, hlength, hstream⟩ := exists_field_of_endsInTime h
    exact decodersAgree_of_field w hfield hlength hstream

/-- A stream in which every byte announces another one is read for ever. -/
theorem not_decodersAgree_endless : ¬ DecodersAgree (fun _ => 255) ⟨freshClient, [], []⟩ := by
  intro h
  obtain ⟨i, -, hend⟩ := endsInTime_of_decodersAgree h
  exact absurd hend (by decide : ¬ (255 : UInt8).toNat < 128)

/-! ## One packet after the other -/

variable (stream) in
/-- A full turn of the drain loop for each chunk of the packet. -/
theorem run_drainLoop {size remLen : Nat} {p : DrainProgress} {fuel : Nat} (r : Reader) (w : World)
    (hsize : 0 < size) (hp : Draining size remLen p) (henough : remLen - p.totalBytesRead ≤ fuel) :
    ∃ reads w', (Program.loop (drainStep remLen size) fuel p).run (ofStream stream).answer r w =
        (some (), ⟨reads, r.bytes + (remLen - p.totalBytesRead)⟩, w') ∧
      w'.client.readBufSize = w.client.readBufSize := by
  induction fuel generalizing p r w with
  | zero =>
      have := hp.undone
      omega
  | succ fuel ih =>
      have hundone := hp.undone
      have hchunk := hp.chunk
      obtain ⟨res, hrun, -⟩ := run_netReadToBuffer_ofStream stream .drain 0 p.bytesToBeRead r w
      simp only [Program.loop, drainStep, Program.run_bind, hrun, if_true]
      by_cases hmore : p.totalBytesRead + p.bytesToBeRead < remLen
      · simp only [if_pos hmore, Program.pure_eq, Program.run_ret]
        have hp' : Draining size remLen ⟨p.totalBytesRead + p.bytesToBeRead,
            if remLen - (p.totalBytesRead + p.bytesToBeRead) ≥ size then size
              else remLen - (p.totalBytesRead + p.bytesToBeRead)⟩ := by
          refine ⟨hmore, ?_⟩
          simp only
          split <;> omega
        obtain ⟨reads, w', hrest, hbuffer⟩ :=
          ih ⟨r.reads + 1, r.bytes + p.bytesToBeRead⟩ (w.filled .drain 0 res) hp'
            (by simp only; omega)
        have hbytes : r.bytes + p.bytesToBeRead + (remLen - (p.totalBytesRead + p.bytesToBeRead)) =
            r.bytes + (remLen - p.totalBytesRead) := by omega
        simp only [hbytes] at hrest
        exact ⟨reads, w', hrest, hbuffer⟩
      · -- the last chunk is what is left of the packet
        have hlast : r.bytes + p.bytesToBeRead = r.bytes + (remLen - p.totalBytesRead) := by omega
        simp only [if_neg hmore, Program.pure_eq, Program.run_ret, hlast]
        exact ⟨r.reads + 1, _, rfl, rfl⟩

variable (stream) in
theorem run_readRemaining_ofStream (off remLen : Nat) (r : Reader) (w : World) :
    ∃ reads w', (readRemaining off remLen).run (ofStream stream).answer r w =
        (some .success, ⟨reads, r.bytes + remLen⟩, w') ∧
      w'.client = { w.client with
        readBuf := w.client.readBuf.store off (stream.load r.bytes remLen) } := by
  by_cases hpos : remLen > 0
  · obtain ⟨res, hrun, hbytes⟩ := run_netReadToBuffer_ofStream stream .body off remLen r w
    rw [readRemaining, if_pos hpos, hrun]
    refine ⟨_, _, rfl, ?_⟩
    rw [← hbytes]
    rfl
  · have hzero : remLen = 0 := by omega
    subst hzero
    rw [readRemaining, if_neg hpos]
    refine ⟨_, w, rfl, ?_⟩
    simp only [Memory.load_zero, Memory.store_nil]

/-- What a call makes of the next packet: its answer, and the receive buffer it leaves. -/
structure ReadAs (size : Nat) (p : ControlPacket) (x : Except IotError UInt8 × Memory) : Prop where
  stored : p.canonical.length ≤ size →
    x.1 = .ok (headerType p.header) ∧ x.2.load 0 p.canonical.length = p.canonical
  drained : size ≤ p.body.length → x.1 = .error .mqttRxBufferTooShortError

/-- The receive buffer when header, length field and body have been stored in it. -/
theorem load_stored (buf : Memory) (header : UInt8) (field body : List UInt8) :
    (((buf.store 0 [header]).store 1 field).store (1 + field.length) body).load 0
      (1 + (field.length + body.length)) = header :: (field ++ body) := by
  have hheader : (buf.store 0 [header]).load 0 1 = [header] := Memory.load_store buf 0 [header]
  rw [← Nat.add_assoc, Memory.load_add, Memory.load_store_of_le _ _ (Nat.le_of_eq (Nat.zero_add _)),
    Nat.zero_add, Memory.load_store, Memory.load_add,
    Memory.load_store_of_le _ _ (Nat.le_of_eq (Nat.zero_add _)), Nat.zero_add, Memory.load_store,
    hheader]
  rfl

variable (stream) in
/-- The part behind the length field, for a packet that is too long for the buffer. -/
theorem run_readPacketOfLength_of_ge {remLen : Nat} (fuel : Nat) (r : Reader) (w : World)
    (hsize : 0 < w.client.readBufSize) (hge : w.client.readBufSize ≤ remLen)
    (henough : remLen ≤ fuel) :
    ∃ reads w', (readPacketOfLength fuel remLen).run (ofStream stream).answer r w =
        (some (.error .mqttRxBufferTooShortError), ⟨reads, r.bytes + remLen⟩, w') ∧
      w'.client.readBufSize = w.client.readBufSize := by
  have hp : Draining w.client.readBufSize remLen ⟨0, w.client.readBufSize⟩ :=
    ⟨Nat.lt_of_lt_of_le hsize hge, (Nat.min_eq_left hge).symm⟩
  obtain ⟨reads, w', hrun, hbuffer⟩ := run_drainLoop stream r w hsize hp henough
  refine ⟨reads, w', ?_, hbuffer⟩
  simp only [readPacketOfLength, getClient, Program.atomically, Program.act_bind, Program.ret_bind,
    Program.run_act, id_eq, if_pos hge, Program.run_bind_of_some _ hrun]
  rfl

variable (stream) in
/-- The part behind the length field, for a packet whose body is shorter than the buffer. -/
theorem run_readPacketBody_ofStream (remLen : Nat) (r : Reader) (w : World) :
    ∃ reads w', (readPacketBody remLen).run (ofStream stream).answer r w =
        (some (.ok (headerType (w'.client.readBuf 0))), ⟨reads, r.bytes + remLen⟩, w') ∧
      w'.client = { w.client with
        readBuf := (w.client.readBuf.store 1 (writeLenToBuffer remLen)).store
          (1 + (writeLenToBuffer remLen).length) (stream.load r.bytes remLen) } := by
  obtain ⟨reads, w', hrun, hclient⟩ := run_readRemaining_ofStream stream
    (1 + (writeLenToBuffer remLen).length) remLen r (w.withLength (writeLenToBuffer remLen))
  refine ⟨reads, w'.log (.received (MessageType.ofNibble (headerType (w'.client.readBuf 0)))), ?_,
    hclient⟩
  simp only [readPacketBody, Program.modify, Program.act_bind, Program.ret_bind, Program.run_act,
    Program.run_bind_of_some _ hrun]
  rfl

/-- A packet at the reader's position is read to its last byte. -/
theorem run_internalReadPacket {p : ControlPacket} {r : Reader} {fuel : Nat} (w : World)
    (hsize : 0 < w.client.readBufSize) (henough : p.bytes.length ≤ fuel)
    (hstream : stream.load r.bytes p.bytes.length = p.bytes) :
    ∃ res reads w', (internalReadPacket fuel).run (ofStream stream).answer r w =
        (some res, ⟨reads, r.bytes + p.bytes.length⟩, w') ∧
      w'.client.readBufSize = w.client.readBufSize ∧
      ReadAs w.client.readBufSize p (res, w'.client.readBuf) := by
  rw [p.length_bytes] at henough
  obtain ⟨hheader, hfield, hbody⟩ := p.load_bytes hstream
  obtain ⟨res, hread, hres⟩ := run_netReadToBuffer_ofStream stream .header 0 1 r
    (w.log (.countdown .packet w.client.packetTimeoutMs))
  generalize hw₁ : (w.log (.countdown .packet w.client.packetTimeoutMs)).filled .header 0 res = w₁
    at hread
  have hclient₁ : w₁.client = { w.client with readBuf := w.client.readBuf.store 0 [p.header] } := by
    rw [← hw₁, ← hheader]
    simp only [World.filled, World.client_log, World.client_onClient, hres]
    rfl
  -- the length field spells the length of the body
  have hdecoded := run_decodeLoop (p := ⟨0, 1, 0⟩) (r := ⟨r.reads + 1, r.bytes + 1⟩) fuel w₁
    p.isField (Nat.zero_le 1) hfield
  have hvalue : (0 + lengthValue p.field * 1) % 2 ^ 64 = p.body.length := by
    have := p.length_body_lt
    rw [Nat.zero_add, Nat.mul_one, p.length_eq]
    omega
  simp only [hvalue] at hdecoded
  generalize hx : (Program.loop decodePacketRemainingLenStep fuel ⟨0, 1, 0⟩).run
    (ofStream stream).answer ⟨r.reads + 1, r.bytes + 1⟩ w₁ = x at hdecoded
  cases hdecoded with
  | unfinished hfuel => omega
  | @ended w₂ _ hclient₂ =>
      have hrun : (internalReadPacket fuel).run (ofStream stream).answer r w =
          (readPacketOfLength fuel p.body.length).run (ofStream stream).answer
            ⟨r.reads + 1 + p.field.length, r.bytes + 1 + p.field.length⟩ w₂ := by
        simp only [internalReadPacket, getClient, countdown, emit, Program.atomically,
          Program.modify, Program.act_bind, Program.ret_bind, Program.run_act, id_eq,
          Program.run_bind_of_some _ hread, decodePacketRemainingLen]
        rw [if_neg (by decide), if_neg (not_not.mpr rfl), Program.run_bind_of_some _ hx]
      have hbytes : r.bytes + 1 + p.field.length + p.body.length = r.bytes + p.bytes.length := by
        rw [p.length_bytes]
        omega
      have hclient := hclient₂.trans hclient₁
      have hsize₂ : w₂.client.readBufSize = w.client.readBufSize := by rw [hclient]
      have hcanonical : p.canonical.length =
          1 + ((writeLenToBuffer p.body.length).length + p.body.length) := by
        simp only [ControlPacket.canonical, List.length_cons, List.length_append]
        omega
      rw [hrun, ← hbytes]
      by_cases hge : w.client.readBufSize ≤ p.body.length
      · obtain ⟨reads, w', hrun', hbuffer⟩ := run_readPacketOfLength_of_ge stream
          fuel ⟨r.reads + 1 + p.field.length, r.bytes + 1 + p.field.length⟩ w₂
          (hsize₂ ▸ hsize) (hsize₂ ▸ hge) (by omega)
        refine ⟨_, reads, w', hrun', hbuffer.trans hsize₂, ⟨fun hfits => ?_, fun _ => rfl⟩⟩
        have := length_writeLenToBuffer_pos p.body.length
        omega
      · obtain ⟨reads, w', hrun', hclient'⟩ := run_readPacketBody_ofStream stream
          p.body.length ⟨r.reads + 1 + p.field.length, r.bytes + 1 + p.field.length⟩ w₂
        have hlt : p.body.length < w₂.client.readBufSize := hsize₂ ▸ Nat.not_le.mp hge
        rw [(ofStream stream).readPacketOfLength_of_lt fuel _ hlt, hrun']
        have hload : w'.client.readBuf.load 0 p.canonical.length = p.canonical := by
          rw [hclient', hclient, hcanonical]
          simp only [hbody]
          exact load_stored _ _ _ _
        have htype : w'.client.readBuf 0 = p.header := by
          rw [hcanonical, Nat.add_comm, Memory.load_succ] at hload
          exact (List.cons.inj hload).1
        refine ⟨_, reads, w', rfl, ?_, ⟨fun _ => ⟨?_, hload⟩, fun hge' => absurd hge' hge⟩⟩
        · rw [hclient']
          exact hsize₂
        · rw [htype]

/-- Successive calls of `internalReadPacket`: what each of them answers, and the
receive buffer it leaves. -/
def readPackets (fuel : Nat) : Nat → M (List (Except IotError UInt8 × Memory))
  | 0 => return []
  | calls + 1 => do
      let res ← internalReadPacket fuel
      let c ← getClient
      let rest ← readPackets fuel calls
      return (res, c.readBuf) :: rest

theorem run_readPackets {packets : List ControlPacket} {r : Reader} {fuel : Nat} (w : World)
    (hsize : 0 < w.client.readBufSize)
    (hstream : stream.load r.bytes (packets.flatMap (·.bytes)).length = packets.flatMap (·.bytes))
    (henough : ∀ p ∈ packets, p.bytes.length ≤ fuel) :
    ∃ results reads w', (readPackets fuel packets.length).run (ofStream stream).answer r w =
        (some results, ⟨reads, r.bytes + (packets.flatMap (·.bytes)).length⟩, w') ∧
      List.Forall₂ (ReadAs w.client.readBufSize) packets results := by
  induction packets generalizing r w with
  | nil => exact ⟨[], r.reads, w, rfl, .nil⟩
  | cons p packets ih =>
      rw [List.flatMap_cons, List.length_append, Memory.load_add] at hstream
      obtain ⟨hfirst, hrest⟩ := List.append_inj hstream (Memory.length_load _ _ _)
      obtain ⟨res, reads, w₁, hrun, hbuffer, hread⟩ :=
        run_internalReadPacket w hsize (henough p List.mem_cons_self) hfirst
      obtain ⟨results, reads', w₂, hruns, hreads⟩ :=
        ih (r := ⟨reads, r.bytes + p.bytes.length⟩) w₁ (hbuffer ▸ hsize) hrest
          fun q hq => henough q (List.mem_cons_of_mem p hq)
      rw [hbuffer] at hreads
      refine ⟨(res, w₁.client.readBuf) :: results, reads', w₂, ?_, .cons hread hreads⟩
      simp only [List.length_cons, readPackets, getClient, Program.atomically, Program.act_bind,
        Program.ret_bind, Program.run_bind_of_some _ hrun, Program.run_act, id_eq,
        Program.run_bind_of_some _ hruns, List.flatMap_cons, List.length_append, Nat.add_assoc]
      rfl

/-- However many packets of a stream are read, each call takes just one. -/
theorem readPackets_spec (packets : List ControlPacket) (stream : Memory) (w : World)
    (hsize : 0 < w.client.readBufSize)
    (hstream : stream.load 0 (packets.flatMap (·.bytes)).length = packets.flatMap (·.bytes)) :
    ∀ fuel, (packets.flatMap (·.bytes)).length ≤ fuel → ∀ calls ≤ packets.length,
      ∃ results reads w', (readPackets fuel calls).run (ofStream stream).answer ⟨0, 0⟩ w =
          (some results, ⟨reads, ((packets.take calls).flatMap (·.bytes)).length⟩, w') ∧
        List.Forall₂ (ReadAs w.client.readBufSize) (packets.take calls) results := by
  intro fuel henough calls hcalls
  have hsplit : packets.flatMap (·.bytes) =
      (packets.take calls).flatMap (·.bytes) ++ (packets.drop calls).flatMap (·.bytes) := by
    rw [← List.flatMap_append, List.take_append_drop]
  have hbegin : stream.load 0 ((packets.take calls).flatMap (·.bytes)).length =
      (packets.take calls).flatMap (·.bytes) := by
    rw [hsplit, List.length_append, Memory.load_add] at hstream
    exact (List.append_inj hstream (Memory.length_load _ _ _)).1
  have hfuel : ∀ p ∈ packets.take calls, p.bytes.length ≤ fuel := by
    intro p hp
    refine Nat.le_trans ?_ henough
    have hmem := List.mem_map_of_mem (f := ControlPacket.bytes) (List.mem_of_mem_take hp)
    exact (List.sublist_flatten_of_mem hmem).length_le
  have hrun := run_readPackets (r := ⟨0, 0⟩) w hsize hbegin hfuel
  rw [List.length_take_of_le hcalls] at hrun
  simpa only [Nat.zero_add] using hrun

end Incoming

/-- A PINGRESP whose length field is padded to two bytes. -/
def paddedPingresp : ControlPacket where
  header := 0xD0
  field := [0x80, 0]
  body := []
  isField := by decide
  field_le := by decide
  length_eq := by decide

def pairStream : Memory := fun i =>
  ([paddedPingresp, wholePublish.toControlPacket].flatMap (·.bytes)).getD i 0

theorem readPackets_pairStream :
    0 < freshClient.readBufSize ∧
      ∃ results reads w', (Incoming.readPackets 12 2).run (Incoming.ofStream pairStream).answer
          ⟨0, 0⟩ ⟨freshClient, [], []⟩ = (some results, ⟨reads, 11⟩, w') ∧
        List.Forall₂ (Incoming.ReadAs freshClient.readBufSize)
          [paddedPingresp, wholePublish.toControlPacket] results :=
  ⟨by decide, Incoming.readPackets_spec [paddedPingresp, wholePublish.toControlPacket] pairStream
    ⟨freshClient, [], []⟩ (by decide) (by decide) 12 (by decide) 2 (by decide)⟩

end MqttClient
