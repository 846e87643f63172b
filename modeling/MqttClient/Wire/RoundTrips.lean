import MqttClient.Wire.ConnectPackets
import MqttClient.Wire.Publications

/-! # Packets read back

What a serializer writes is read back as it was given, as long as the length
field has room for the length: PUBLISH by the client's own deserializer, and
SUBSCRIBE and UNSUBSCRIBE by their layout in MQTT 3.1.1.
-/

namespace MqttClient

/-- The greatest remaining length: four bytes of seven bits each. -/
def maxRemainingLength : Nat := 268435455

/-- A length that fits into four bytes is written and read as it is. -/
structure FitsField (length : Nat) : Prop where
  field_le : (writeLenToBuffer length).length ≤ maxNoOfRemainingLengthBytes
  value_eq : lengthValue (writeLenToBuffer length) = length
  mod_eq : length % 2 ^ 32 = length

theorem fitsField {length : Nat} (h : length ≤ maxRemainingLength) : FitsField length := by
  have hlt : length < 128 ^ 4 := Nat.lt_succ_of_le h
  have hlt32 : length < 2 ^ 32 := Nat.lt_trans hlt (by decide)
  exact ⟨length_writeLenToBuffer_le _ 4 (by decide) hlt, lengthValue_writeLenToBuffer hlt32,
    Nat.mod_eq_of_lt hlt32⟩

theorem memcpy_length (src : List UInt8) : memcpy src src.length = src := by
  apply List.ext_getElem
  · exact length_memcpy _ _
  · intro i hi hi'
    simp only [memcpy, List.getElem_map, List.getElem_range, List.getD_eq_getElem?_getD,
      List.getElem?_eq_getElem hi', Option.getD_some]

/-! ## PUBLISH -/

/-- The bytes of a PUBLISH behind its length field. -/
def publishBody (qos : QoS) (packetId : UInt16) (topicName : List UInt8) (topicNameLen : UInt16)
    (payload : List UInt8) : List UInt8 :=
  writeUtf8String topicName topicNameLen ++
    ((if qos > 0 then writeUint16 packetId else []) ++ payload)

/-- The remaining length of a PUBLISH: topic length, topic, identifier and payload. -/
def publishRemaining (qos : QoS) (topicNameLen payloadLen : Nat) : Nat :=
  topicNameLen + payloadLen + 2 + if qos > 0 then 2 else 0

theorem length_publishBody (qos : QoS) (packetId : UInt16) (topicName : List UInt8)
    (topicNameLen : UInt16) (payload : List UInt8) :
    (publishBody qos packetId topicName topicNameLen payload).length =
      publishRemaining qos topicNameLen.toNat payload.length := by
  rw [publishBody, publishRemaining, List.length_append, List.length_append,
    length_writeUtf8String]
  split
  · rw [length_writeUint16]
    omega
  · rw [List.length_nil]
    omega

/-- What the header of a PUBLISH says. -/
structure PublishHeader (header dup : UInt8) (qos : QoS) (retained : UInt8) : Prop where
  isPublish : headerType header = MessageType.publish.code
  dup_eq : headerDup header = dup
  qos_eq : headerQos header = qos
  retained_eq : headerRetain header = retained

theorem publishHeader {dup retained header : UInt8} {qos : QoS} (hdup : dup = 0 ∨ dup = 1)
    (hqos : qos = qos0 ∨ qos = qos1) (hretained : retained = 0 ∨ retained = 1)
    (h : initHeader .publish qos dup retained = .ok header) :
    PublishHeader header dup qos retained := by
  rcases hdup with rfl | rfl <;> rcases hqos with rfl | rfl <;> rcases hretained with rfl | rfl <;>
    cases h <;> exact ⟨by decide, by decide, by decide, by decide⟩

/-- The 32-bit length that `serializePublish` computes. -/
def publishRemLen (qos : QoS) (topicNameLen payloadLen : Nat) : Nat :=
  publishRemaining qos topicNameLen payloadLen % 2 ^ 32

/-- A PUBLISH that is built: its predicted size fits, and its bytes. -/
theorem serializePublish_ok {txBufLen payloadLen : Nat} {dup retained : UInt8} {qos : QoS}
    {packetId topicNameLen : UInt16} {topicName payload packet : List UInt8}
    (h : serializePublish txBufLen dup qos retained packetId topicName topicNameLen (some payload)
      payloadLen = .ok packet) :
    getFinalPacketLengthFromRemainingLength (publishRemLen qos topicNameLen.toNat payloadLen) ≤
        txBufLen ∧
      ∃ header, initHeader .publish qos dup retained = .ok header ∧
        packet = header :: (writeLenToBuffer (publishRemLen qos topicNameLen.toNat payloadLen) ++
          publishBody qos packetId topicName topicNameLen (memcpy payload payloadLen)) := by
  have hremLen : (if qos > 0 then ((topicNameLen.toNat + payloadLen + 2) % 2 ^ 32 + 2) % 2 ^ 32
      else (topicNameLen.toNat + payloadLen + 2) % 2 ^ 32) =
      publishRemLen qos topicNameLen.toNat payloadLen := by
    rw [publishRemLen, publishRemaining]
    split
    · exact Nat.mod_add_mod _ _ _
    · rfl
  unfold serializePublish at h
  dsimp only at h
  rw [hremLen] at h
  split at h
  · cases h
  next hfits =>
    cases hheader : initHeader .publish qos dup retained with
    | error rc =>
        rw [hheader] at h
        cases h
    | ok header =>
        rw [hheader] at h
        cases h
        refine ⟨Nat.not_lt.mp hfits, header, rfl, ?_⟩
        simp only [publishBody, List.cons_append, List.append_assoc]

/-- What is read back from a PUBLISH that lies in the buffer. -/
structure ReadBack (buf : Memory) (packet : List UInt8) (dup : UInt8) (qos : QoS)
    (retained : UInt8) (packetId : UInt16) (topicName payload : List UInt8)
    (f : PublishFields) : Prop where
  found : deserializePublish buf packet.length = .ok f
  dup_eq : f.dup = dup
  qos_eq : f.qos = qos
  retained_eq : f.retained = retained
  packetId_eq : f.packetId = if qos = qos1 then some packetId else none
  topicName_eq : buf.load f.topicOff f.topicNameLen.toNat = topicName
  payload_eq : buf.load f.payloadOff f.payloadLen = payload

section PublishRoundTrip

variable {dup retained header : UInt8} {qos : QoS} {packetId topicNameLen : UInt16}
  {topicName payload : List UInt8}

/-- The packet, as its reader sees it. -/
def writtenPublish (hheader : PublishHeader header dup qos retained)
    (hrem : publishRemaining qos topicNameLen.toNat payload.length ≤ maxRemainingLength)
    (packetId : UInt16) (topicName : List UInt8) : PublishPacket where
  header := header
  field := writeLenToBuffer (publishRemaining qos topicNameLen.toNat payload.length)
  body := publishBody qos packetId topicName topicNameLen payload
  isPublish := hheader.isPublish
  isField := isLengthField_writeLenToBuffer _
  field_le := (fitsField hrem).field_le
  length_eq := by rw [length_publishBody, (fitsField hrem).value_eq]

variable (hheader : PublishHeader header dup qos retained)
  (hrem : publishRemaining qos topicNameLen.toNat payload.length ≤ maxRemainingLength)

theorem topicNameLen_writtenPublish :
    (writtenPublish hheader hrem packetId topicName).topicNameLen = topicNameLen :=
  Option.some.inj (leadingUint16_writeUint16 topicNameLen (memcpy topicName topicNameLen.toNat ++
    ((if qos > 0 then writeUint16 packetId else []) ++ payload)))

theorem packetIdSize_writtenPublish :
    (writtenPublish hheader hrem packetId topicName).packetIdSize =
      (if qos > 0 then writeUint16 packetId else []).length := by
  have hqos : headerQos (writtenPublish hheader hrem packetId topicName).header = qos :=
    hheader.qos_eq
  rw [PublishPacket.packetIdSize, hqos]
  by_cases hzero : qos = qos0
  · rw [hzero]
    rfl
  · rw [if_pos hzero, if_pos (UInt8.pos_iff_ne_zero.mpr hzero), length_writeUint16]

/-- The body falls into topic length, topic, identifier and payload. -/
theorem holdsFields_writtenPublish :
    (writtenPublish hheader hrem packetId topicName).HoldsFields := by
  have hbody : (writtenPublish hheader hrem packetId topicName).body.length =
      topicNameLen.toNat + 2 + ((if qos > 0 then writeUint16 packetId else []).length +
        payload.length) := by
    change (publishBody qos packetId topicName topicNameLen payload).length = _
    rw [publishBody, List.length_append, List.length_append, length_writeUtf8String]
  refine ⟨?_, ?_⟩
  · rw [hbody]
    omega
  · rw [topicNameLen_writtenPublish, packetIdSize_writtenPublish, hbody]
    omega

theorem topicName_writtenPublish :
    (writtenPublish hheader hrem packetId topicName).topicName =
      memcpy topicName topicNameLen.toNat := by
  rw [PublishPacket.topicName, topicNameLen_writtenPublish]
  change ((writeUtf8String topicName topicNameLen ++ _).drop 2).take _ = _
  rw [writeUtf8String, List.append_assoc, List.drop_left' (length_writeUint16 _),
    List.take_left' (length_memcpy _ _)]

theorem drop_publishBody (rest : Nat) :
    (publishBody qos packetId topicName topicNameLen payload).drop
        (2 + topicNameLen.toNat + rest) =
      ((if qos > 0 then writeUint16 packetId else []) ++ payload).drop rest := by
  have htopic : (writeUtf8String topicName topicNameLen).length = 2 + topicNameLen.toNat := by
    rw [length_writeUtf8String, Nat.add_comm]
  rw [publishBody, ← htopic, ← List.drop_drop, List.drop_left]

theorem payload_writtenPublish :
    (writtenPublish hheader hrem packetId topicName).payload = payload := by
  rw [PublishPacket.payload, topicNameLen_writtenPublish, packetIdSize_writtenPublish]
  change (publishBody qos packetId topicName topicNameLen payload).drop _ = _
  rw [drop_publishBody, List.drop_left]

theorem packetId_writtenPublish (hqos : qos = qos0 ∨ qos = qos1) :
    (writtenPublish hheader hrem packetId topicName).packetId =
      if qos = qos1 then some packetId else none := by
  have heq : headerQos (writtenPublish hheader hrem packetId topicName).header = qos :=
    hheader.qos_eq
  rw [PublishPacket.packetId, topicNameLen_writtenPublish, heq]
  rcases hqos with rfl | rfl
  · rfl
  · change leadingUint16 ((publishBody qos1 packetId topicName topicNameLen payload).drop _) = _
    have hdrop := @drop_publishBody qos1 packetId topicNameLen topicName payload 0
    rw [Nat.add_zero, List.drop_zero] at hdrop
    rw [hdrop]
    exact leadingUint16_writeUint16 _ _

/-- A packet that fills its buffer is taken apart into what it was made from. -/
theorem readBack_writtenPublish (hqos : qos = qos0 ∨ qos = qos1)
    (hlen : topicNameLen.toNat = topicName.length) {buf : Memory} {packet : List UInt8}
    (hpacket : (writtenPublish hheader hrem packetId topicName).bytes = packet)
    (hbuf : buf.load 0 packet.length = packet) :
    ReadBack buf packet dup qos retained packetId topicName payload
      ((writtenPublish hheader hrem packetId topicName).found buf) := by
  have hin : (writtenPublish hheader hrem packetId topicName).IsIn buf packet.length :=
    ⟨Nat.le_of_eq (congrArg List.length hpacket), by rw [hpacket, hbuf]⟩
  have hholds := @holdsFields_writtenPublish _ _ _ _ packetId _ topicName _ hheader hrem
  refine ⟨PublishPacket.deserializePublish_of_holdsFields hin hholds,
    hheader.dup_eq, hheader.qos_eq, hheader.retained_eq, ?_, ?_, ?_⟩
  · rw [PublishPacket.packetId_found hin hholds, packetId_writtenPublish hheader hrem hqos]
  · rw [PublishPacket.load_topicName hin hholds, topicName_writtenPublish, hlen, memcpy_length]
  · rw [PublishPacket.load_payload hin hholds, payload_writtenPublish]

end PublishRoundTrip

/-- A PUBLISH that the client has built is taken apart by the client into what it was made from,
and the length it reports is that of the packet. -/
theorem deserializePublish_serializePublish {txBufLen : Nat} {dup retained : UInt8} {qos : QoS}
    {packetId topicNameLen : UInt16} {topicName payload packet : List UInt8} {buf : Memory}
    (hdup : dup = 0 ∨ dup = 1) (hretained : retained = 0 ∨ retained = 1)
    (hqos : qos = qos0 ∨ qos = qos1) (hlen : topicNameLen.toNat = topicName.length)
    (hrem : publishRemaining qos topicName.length payload.length ≤ maxRemainingLength)
    (h : serializePublish txBufLen dup qos retained packetId topicName topicNameLen (some payload)
      payload.length = .ok packet)
    (hbuf : buf.load 0 packet.length = packet) :
    (∃ f, ReadBack buf packet dup qos retained packetId topicName payload f) ∧
      packet.length % 2 ^ 32 = packet.length := by
  obtain ⟨-, header, hinit, hpacket⟩ := serializePublish_ok h
  rw [← hlen] at hrem
  rw [publishRemLen, (fitsField hrem).mod_eq, memcpy_length] at hpacket
  refine ⟨⟨_, readBack_writtenPublish (publishHeader hdup hqos hretained hinit) hrem hqos hlen
    hpacket.symm hbuf⟩, Nat.mod_eq_of_lt ?_⟩
  have hfield := (fitsField hrem).field_le
  rw [hpacket, List.length_cons, List.length_append, length_publishBody]
  rw [maxNoOfRemainingLengthBytes] at hfield
  rw [maxRemainingLength] at hrem
  omega

/-- A message of QoS 1 on the topic `a`, and a memory that begins with it. -/
def builtPublish : List UInt8 := [0x32, 6, 0, 1, 97, 0, 7, 33]

def memoryOf (bytes : List UInt8) : Memory := fun i => bytes.getD i 0

theorem deserializePublish_builtPublish :
    (∃ f, ReadBack (memoryOf builtPublish) builtPublish 0 qos1 0 7 [97] [33] f) ∧
      builtPublish.length % 2 ^ 32 = builtPublish.length := by
  have h : serializePublish 512 0 qos1 0 7 [97] 1 (some [33]) 1 = .ok builtPublish := rfl
  exact deserializePublish_serializePublish (.inl rfl) (.inl rfl) (.inr rfl) rfl (by decide) h
    (by decide)

/-! ## SUBSCRIBE and UNSUBSCRIBE -/

/-- What a request says: the flags of its header, its identifier and its filters. -/
structure RequestContent (α : Type) where
  flags : UInt8
  packetId : UInt16
  filters : List α
  deriving DecidableEq

section Requests

variable {α β : Type}

/-- Items up to the end of the packet, at most `limit` of them. -/
def readAll (item : List UInt8 → Option (α × List UInt8)) : Nat → List UInt8 → Option (List α)
  | _, [] => some []
  | 0, _ => none
  | limit + 1, bytes =>
      (item bytes).bind fun (a, rest) => (readAll item limit rest).map fun as => a :: as

/-- The contents of a request that fills the list. -/
def decodeRequest (packetType : MessageType) (item : List UInt8 → Option (α × List UInt8)) :
    List UInt8 → Option (RequestContent α)
  | [] => none
  | header :: bytes =>
      if headerType header = packetType.code then
        (readLengthField maxNoOfRemainingLengthBytes bytes).bind fun (remLen, rest) =>
          if remLen = rest.length then
            (leadingUint16 rest).bind fun packetId =>
              (readAll item rest.length (rest.drop 2)).map fun filters =>
                ⟨header % 16, packetId, filters⟩
          else none
      else none

/-- A filter of a SUBSCRIBE: a string and the QoS asked for. -/
def readFilter (bytes : List UInt8) : Option ((List UInt8 × QoS) × List UInt8) :=
  (readString bytes).bind fun (topic, rest) =>
    match rest with
    | [] => none
    | qos :: rest => some ((topic, qos), rest)

def decodeSubscribe : List UInt8 → Option (RequestContent (List UInt8 × QoS)) :=
  decodeRequest .subscribe readFilter

def decodeUnsubscribe : List UInt8 → Option (RequestContent (List UInt8)) :=
  decodeRequest .unsubscribe readString

variable {item : List UInt8 → Option (α × List UInt8)} {write : β → List UInt8} {value : β → α}

/-- Items that are read back one by one are read back as a list. -/
theorem readAll_flatMap (hitem : ∀ b rest, item (write b ++ rest) = some (value b, rest))
    (hne : ∀ b, write b ≠ []) {bs : List β} {limit : Nat} (hlimit : bs.length ≤ limit) :
    readAll item limit (bs.flatMap write) = some (bs.map value) := by
  induction bs generalizing limit with
  | nil => cases limit <;> rfl
  | cons b bs ih =>
      obtain ⟨limit, rfl⟩ : ∃ l, limit = l + 1 :=
        ⟨limit - 1, by rw [List.length_cons] at hlimit; omega⟩
      obtain ⟨c, rest, hwrite⟩ := List.exists_cons_of_ne_nil (hne b)
      have hread := hitem b (bs.flatMap write)
      rw [hwrite, List.cons_append] at hread
      rw [List.flatMap_cons, hwrite, List.cons_append, readAll, hread, Option.bind_some]
      · dsimp only
        rw [ih (Nat.le_of_succ_le_succ hlimit)]
        rfl
      · exact List.cons_ne_nil _ _

/-- A request whose length field announces just its body is read back. -/
theorem decodeRequest_eq {packetType : MessageType} {dup header : UInt8} {packetId : UInt16}
    {bs : List β} {length : Nat} (hitem : ∀ b rest, item (write b ++ rest) = some (value b, rest))
    (hne : ∀ b, write b ≠ []) (hheader : initHeader packetType qos1 dup 0 = .ok header)
    (hlength : length = 2 + (bs.flatMap write).length) (hrem : length ≤ maxRemainingLength)
    (hcount : bs.length ≤ length) :
    decodeRequest packetType item (header ::
      (writeLenToBuffer length ++ (writeUint16 packetId ++ bs.flatMap write))) =
        some ⟨header % 16, packetId, bs.map value⟩ := by
  have hfit := fitsField hrem
  have hbody : (writeUint16 packetId ++ bs.flatMap write).length = length := by
    rw [List.length_append, length_writeUint16, hlength]
  rw [decodeRequest, if_pos (initHeader_qos1 hheader).1,
    readLengthField_append _ (isLengthField_writeLenToBuffer _) hfit.field_le, Option.bind_some,
    hfit.value_eq]
  dsimp only
  rw [if_pos hbody.symm, leadingUint16_writeUint16, Option.bind_some, hbody,
    List.drop_left' (length_writeUint16 _), readAll_flatMap hitem hne hcount]
  rfl

end Requests

theorem flags_initHeader {packetType : MessageType} {dup header : UInt8}
    (h : initHeader packetType qos1 dup 0 = .ok header) :
    header % 16 = if dup = 1 then 10 else 2 := by
  by_cases hdup : dup = 1
  · subst hdup
    cases packetType <;> cases h <;> rfl
  · simp only [initHeader, hdup, if_false] at h
    rw [if_neg hdup]
    cases packetType <;> cases h <;> rfl

theorem writeUtf8String_ne_nil (string : List UInt8) (stringLen : UInt16) :
    writeUtf8String string stringLen ≠ [] := by
  apply List.ne_nil_of_length_pos
  rw [length_writeUtf8String]
  exact Nat.succ_pos _

theorem readFilter_write (f : FilterRequest) (rest : List UInt8) :
    readFilter ((writeUtf8String f.1 f.2.1 ++ [f.2.2]) ++ rest) =
      some ((memcpy f.1 f.2.1.toNat, f.2.2), rest) := by
  rw [readFilter, List.append_assoc, readString_writeUtf8String]
  rfl

theorem readString_write (f : List UInt8 × UInt16) (rest : List UInt8) :
    readString (writeUtf8String f.1 f.2 ++ rest) = some (memcpy f.1 f.2.toNat, rest) :=
  readString_writeUtf8String f.1 f.2 rest

/-- The lengths are added up modulo 2 ^ 32. -/
theorem foldl_add_mod {α : Type} (size : α → Nat) (as : List α) (start : Nat)
    (hstart : start < 2 ^ 32) :
    as.foldl (fun len a => (len + size a) % 2 ^ 32) start =
      (start + (as.map size).sum) % 2 ^ 32 := by
  induction as generalizing start with
  | nil => exact (Nat.mod_eq_of_lt hstart).symm
  | cons a as ih =>
      rw [List.foldl_cons, ih _ (Nat.mod_lt _ (by decide)), List.map_cons, List.sum_cons,
        Nat.mod_add_mod, Nat.add_assoc]

/-- The flags of a request's header: dup, QoS 1 and a reserved bit. -/
def requestFlags (dup : UInt8) : UInt8 := if dup = 1 then 10 else 2

section Built

variable {txBufLen : Nat} {dup : UInt8} {packetId : UInt16} {packet : List UInt8}

theorem serializeSubscribe_ok {filters : List FilterRequest}
    (h : serializeSubscribe txBufLen dup packetId filters = .ok packet) :
    ∃ header, initHeader .subscribe qos1 dup 0 = .ok header ∧
      packet = header :: (writeLenToBuffer
          ((2 + (filters.map fun f => f.2.1.toNat + 2 + 1).sum) % 2 ^ 32) ++
        (writeUint16 packetId ++ filters.flatMap fun f => writeUtf8String f.1 f.2.1 ++
          [f.2.2])) := by
  unfold serializeSubscribe at h
  rw [foldl_add_mod _ _ _ (by decide)] at h
  dsimp only at h
  split at h
  · cases h
  · cases hheader : initHeader .subscribe qos1 dup 0 with
    | error rc =>
        rw [hheader] at h
        cases h
    | ok header =>
        rw [hheader] at h
        cases h
        exact ⟨header, rfl, by simp only [List.cons_append, List.append_assoc]⟩

theorem serializeUnsubscribe_ok {filters : List (List UInt8 × UInt16)}
    (h : serializeUnsubscribe txBufLen dup packetId filters = .ok packet) :
    ∃ header, initHeader .unsubscribe qos1 dup 0 = .ok header ∧
      packet = header :: (writeLenToBuffer
          ((2 + (filters.map fun f => f.2.toNat + 2).sum) % 2 ^ 32) ++
        (writeUint16 packetId ++ filters.flatMap fun f => writeUtf8String f.1 f.2)) := by
  unfold serializeUnsubscribe at h
  rw [foldl_add_mod _ _ _ (by decide)] at h
  dsimp only at h
  split at h
  · cases h
  · cases hheader : initHeader .unsubscribe qos1 dup 0 with
    | error rc =>
        rw [hheader] at h
        cases h
    | ok header =>
        rw [hheader] at h
        cases h
        exact ⟨header, rfl, by simp only [List.cons_append, List.append_assoc]⟩

/-- The items of a request take the room that was counted for them. -/
theorem length_flatMap_eq {α : Type} {write : α → List UInt8} {size : α → Nat} (as : List α)
    (h : ∀ a, (write a).length = size a) : (as.flatMap write).length = (as.map size).sum := by
  rw [List.length_flatMap]
  congr 1
  exact List.map_congr_left fun a _ => h a

theorem length_le_sum {α : Type} {size : α → Nat} (as : List α) (h : ∀ a, 0 < size a) :
    as.length ≤ (as.map size).sum := by
  induction as with
  | nil => exact Nat.le_refl 0
  | cons a as ih =>
      have ha := h a
      rw [List.length_cons, List.map_cons, List.sum_cons]
      omega

theorem length_request_lt {header : UInt8} {length : Nat} {body : List UInt8}
    (hlength : length = body.length) (hrem : length ≤ maxRemainingLength) :
    (header :: (writeLenToBuffer length ++ body)).length % 2 ^ 32 =
      (header :: (writeLenToBuffer length ++ body)).length := by
  apply Nat.mod_eq_of_lt
  have hfield := (fitsField hrem).field_le
  rw [List.length_cons, List.length_append, ← hlength]
  rw [maxNoOfRemainingLengthBytes] at hfield
  rw [maxRemainingLength] at hrem
  omega

theorem decodeSubscribe_serializeSubscribe {filters : List FilterRequest}
    (hlen : ∀ f ∈ filters, f.2.1.toNat = f.1.length)
    (hrem : 2 + (filters.map fun f => f.2.1.toNat + 2 + 1).sum ≤ maxRemainingLength)
    (h : serializeSubscribe txBufLen dup packetId filters = .ok packet) :
    decodeSubscribe packet =
        some ⟨requestFlags dup, packetId, filters.map fun f => (f.1, f.2.2)⟩ ∧
      packet.length % 2 ^ 32 = packet.length := by
  obtain ⟨header, hheader, rfl⟩ := serializeSubscribe_ok h
  rw [(fitsField hrem).mod_eq]
  have hsize : (filters.flatMap fun f => writeUtf8String f.1 f.2.1 ++ [f.2.2]).length =
      (filters.map fun f => f.2.1.toNat + 2 + 1).sum := by
    apply length_flatMap_eq
    intro f
    rw [List.length_append, length_writeUtf8String]
    rfl
  have hcount : filters.length ≤ (filters.map fun f => f.2.1.toNat + 2 + 1).sum :=
    length_le_sum filters fun f => Nat.succ_pos (f.2.1.toNat + 2)
  have hfilters : (filters.map fun f => (memcpy f.1 f.2.1.toNat, f.2.2)) =
      filters.map fun f => (f.1, f.2.2) := by
    apply List.map_congr_left
    intro f hf
    rw [hlen f hf, memcpy_length]
  refine ⟨?_, length_request_lt ?_ hrem⟩
  · rw [decodeSubscribe, decodeRequest_eq readFilter_write
      (fun f => List.append_ne_nil_of_right_ne_nil _ (List.cons_ne_nil _ _)) hheader
      (by rw [hsize]) hrem (Nat.le_add_left_of_le hcount), flags_initHeader hheader, hfilters]
    rfl
  · rw [List.length_append, hsize, length_writeUint16]

theorem decodeUnsubscribe_serializeUnsubscribe {filters : List (List UInt8 × UInt16)}
    (hlen : ∀ f ∈ filters, f.2.toNat = f.1.length)
    (hrem : 2 + (filters.map fun f => f.2.toNat + 2).sum ≤ maxRemainingLength)
    (h : serializeUnsubscribe txBufLen dup packetId filters = .ok packet) :
    decodeUnsubscribe packet =
        some ⟨requestFlags dup, packetId, filters.map fun f => f.1⟩ ∧
      packet.length % 2 ^ 32 = packet.length := by
  obtain ⟨header, hheader, rfl⟩ := serializeUnsubscribe_ok h
  rw [(fitsField hrem).mod_eq]
  have hsize : (filters.flatMap fun f => writeUtf8String f.1 f.2).length =
      (filters.map fun f => f.2.toNat + 2).sum :=
    length_flatMap_eq filters fun f => length_writeUtf8String f.1 f.2
  have hcount : filters.length ≤ (filters.map fun f => f.2.toNat + 2).sum :=
    length_le_sum filters fun f => Nat.succ_pos (f.2.toNat + 1)
  have hfilters : (filters.map fun f => memcpy f.1 f.2.toNat) = filters.map fun f => f.1 := by
    apply List.map_congr_left
    intro f hf
    rw [hlen f hf, memcpy_length]
  refine ⟨?_, length_request_lt ?_ hrem⟩
  · rw [decodeUnsubscribe, decodeRequest_eq readString_write
      (fun f => writeUtf8String_ne_nil f.1 f.2) hheader
      (by rw [hsize]) hrem (Nat.le_add_left_of_le hcount), flags_initHeader hheader, hfilters]
    rfl
  · rw [List.length_append, hsize, length_writeUint16]

end Built

/-- A request that is built is read back as it was given, whatever its filters, and the length it
reports is that of the packet. -/
theorem decode_serialize_requests (txBufLen : Nat) (dup : UInt8) (packetId : UInt16)
    (packet : List UInt8) :
    (∀ filters : List FilterRequest, (∀ f ∈ filters, f.2.1.toNat = f.1.length) →
      2 + (filters.map fun f => f.2.1.toNat + 2 + 1).sum ≤ maxRemainingLength →
      serializeSubscribe txBufLen dup packetId filters = .ok packet →
      decodeSubscribe packet =
          some ⟨requestFlags dup, packetId, filters.map fun f => (f.1, f.2.2)⟩ ∧
        packet.length % 2 ^ 32 = packet.length) ∧
    ∀ filters : List (List UInt8 × UInt16), (∀ f ∈ filters, f.2.toNat = f.1.length) →
      2 + (filters.map fun f => f.2.toNat + 2).sum ≤ maxRemainingLength →
      serializeUnsubscribe txBufLen dup packetId filters = .ok packet →
      decodeUnsubscribe packet =
          some ⟨requestFlags dup, packetId, filters.map fun f => f.1⟩ ∧
        packet.length % 2 ^ 32 = packet.length :=
  ⟨fun _ hlen hrem h => decodeSubscribe_serializeSubscribe hlen hrem h,
    fun _ hlen hrem h => decodeUnsubscribe_serializeUnsubscribe hlen hrem h⟩

/-- Requests for the filters `a` and `b/c`. -/
def twoFilters : List FilterRequest := [([97], 1, qos0), ([98, 47, 99], 3, qos1)]
def twoTopics : List (List UInt8 × UInt16) := [([97], 1), ([98, 47, 99], 3)]
def builtSubscribe : List UInt8 := [0x82, 12, 0, 5, 0, 1, 97, 0, 0, 3, 98, 47, 99, 1]
def builtUnsubscribe : List UInt8 := [0xa2, 10, 0, 5, 0, 1, 97, 0, 3, 98, 47, 99]

theorem decode_serialize_twoFilters :
    (decodeSubscribe builtSubscribe = some ⟨2, 5, [([97], qos0), ([98, 47, 99], qos1)]⟩ ∧
        builtSubscribe.length % 2 ^ 32 = builtSubscribe.length) ∧
      decodeUnsubscribe builtUnsubscribe = some ⟨2, 5, [[97], [98, 47, 99]]⟩ ∧
        builtUnsubscribe.length % 2 ^ 32 = builtUnsubscribe.length :=
  ⟨(decode_serialize_requests 512 0 5 builtSubscribe).1 twoFilters (by decide) (by decide) rfl,
    (decode_serialize_requests 512 0 5 builtUnsubscribe).2 twoTopics (by decide) (by decide) rfl⟩

end MqttClient
