import MqttClient.Client.Handlers
import MqttClient.Wire.Identifiers
import Mathlib.Data.List.TakeWhile

/-! # Filters as bytes

A filter is handed over as a buffer and a length. The packets carry the bytes
up to that length; what the table decides it decides from the characters
before the terminator. The two agree where the length is no shorter than the text.
-/

namespace MqttClient

/-- What a SUBSCRIBE or UNSUBSCRIBE packet asks for. -/
inductive FilterChange where
  | subscribe (filter : List UInt8)
  | unsubscribe (filter : List UInt8)
  deriving DecidableEq

/-- The change of its first filter that a packet asks for. -/
def filterChange (packet : List UInt8) : Option FilterChange :=
  let body := packetBody packet
  (leadingUint16 (body.drop 2)).bind fun topicNameLen =>
    let filter := (body.drop 4).take topicNameLen.toNat
    if headerType (packet.headD 0) = MessageType.subscribe.code then some (.subscribe filter)
    else if headerType (packet.headD 0) = MessageType.unsubscribe.code then
      some (.unsubscribe filter)
    else none

theorem filterChange_cons {messageType : MessageType} {dup header : UInt8} {length : Nat}
    {packetId : UInt16} {string rest : List UInt8} {stringLen : UInt16}
    (h : initHeader messageType qos1 dup 0 = .ok header) :
    filterChange (header :: (writeLenToBuffer length ++ (writeUint16 packetId ++
      (writeUtf8String string stringLen ++ rest)))) =
      if messageType = .subscribe then some (.subscribe (memcpy string stringLen.toNat))
      else if messageType = .unsubscribe then some (.unsubscribe (memcpy string stringLen.toNat))
      else none := by
  obtain ⟨hheader, -⟩ := initHeader_qos1 h
  have hdrop : (writeUint16 packetId ++ (writeUtf8String string stringLen ++ rest)).drop 2 =
      writeUint16 stringLen ++ (memcpy string stringLen.toNat ++ rest) := by
    rw [List.drop_left' (length_writeUint16 _), writeUtf8String, List.append_assoc]
  have hfilter : ((writeUint16 packetId ++ (writeUtf8String string stringLen ++ rest)).drop 4).take
      stringLen.toNat = memcpy string stringLen.toNat := by
    rw [show (4 : Nat) = 2 + 2 from rfl, ← List.drop_drop, hdrop,
      List.drop_left' (length_writeUint16 _), List.take_left' (length_memcpy _ _)]
  simp only [filterChange, packetBody_cons, hdrop, leadingUint16_writeUint16,
    Option.bind_some, hfilter, List.headD_cons, hheader]
  cases messageType <;> rfl

theorem filterChange_serializeSubscribe {txBufLen : Nat} {dup : UInt8} {packetId : UInt16}
    {topicName : List UInt8} {topicNameLen : UInt16} {qos : QoS} {packet : List UInt8}
    (h : serializeSubscribe txBufLen dup packetId [(topicName, topicNameLen, qos)] = .ok packet) :
    filterChange packet = some (.subscribe (memcpy topicName topicNameLen.toNat)) := by
  unfold serializeSubscribe at h
  dsimp only at h
  split at h
  · cases h
  · cases hheader : initHeader .subscribe qos1 dup 0 with
    | error rc =>
        rw [hheader] at h
        cases h
    | ok header =>
        rw [hheader] at h
        cases h
        simp only [List.cons_append, List.append_assoc, List.flatMap_cons, List.flatMap_nil]
        exact filterChange_cons hheader

theorem filterChange_serializeUnsubscribe {txBufLen : Nat} {dup : UInt8} {packetId : UInt16}
    {topicFilter : List UInt8} {topicFilterLen : UInt16} {packet : List UInt8}
    (h : serializeUnsubscribe txBufLen dup packetId [(topicFilter, topicFilterLen)] = .ok packet) :
    filterChange packet = some (.unsubscribe (memcpy topicFilter topicFilterLen.toNat)) := by
  unfold serializeUnsubscribe at h
  dsimp only at h
  split at h
  · cases h
  · cases hheader : initHeader .unsubscribe qos1 dup 0 with
    | error rc =>
        rw [hheader] at h
        cases h
    | ok header =>
        rw [hheader] at h
        cases h
        simp only [List.cons_append, List.append_assoc, List.flatMap_cons, List.flatMap_nil]
        exact filterChange_cons hheader

/-! ## Buffers and their texts -/

theorem memcpy_succ (src : List UInt8) (n : Nat) :
    memcpy src (n + 1) = src.headD 0 :: memcpy src.tail n := by
  rw [memcpy, List.range_succ_eq_map, List.map_cons, List.map_map]
  cases src <;> rfl

theorem memcpy_eq_take (src : List UInt8) (n : Nat) :
    memcpy src n = (src ++ List.replicate n 0).take n := by
  induction n generalizing src with
  | zero => rfl
  | succ n ih =>
      rw [memcpy_succ, ih]
      cases src with
      | nil => simp [List.replicate_succ]
      | cons b src => simp [List.replicate_succ', List.take_append]

/-- The first characters of a buffer hold its text, if there are enough of them. -/
theorem takeWhile_memcpy (s : CString) {n : Nat} (h : s.text.length ≤ n) :
    (memcpy s.bytes n).takeWhile (· ≠ 0) = s.text := by
  have happend : (s.bytes ++ List.replicate n 0).takeWhile (· ≠ 0) = s.text := by
    rw [List.takeWhile_append, if_neg]
    · rfl
    · intro hlength
      have hall := List.takeWhile_eq_self_iff.mp
        ((List.takeWhile_prefix _).eq_of_length hlength) 0 s.nul
      simp at hall
  rw [memcpy_eq_take, ← List.take_takeWhile, happend, List.take_of_length_le h]

theorem strncmpEq_memcpy (a b : List UInt8) (n : Nat) :
    strncmpEq a (memcpy b n) n = strncmpEq a b n := by
  induction n generalizing a b with
  | zero => simp [strncmpEq]
  | succ n ih => simp only [memcpy_succ, strncmpEq, List.headD_cons, List.tail_cons, ih]

/-! ## The filters in the table -/

namespace MessageHandler

/-- The bytes that were sent for a slot. -/
def filter (h : MessageHandler) : List UInt8 :=
  match h.topicName with
  | none => []
  | some topicName => memcpy topicName.bytes h.topicNameLen.toNat

/-- The length is no shorter than the text. -/
def isWhole (h : MessageHandler) : Bool :=
  match h.topicName with
  | none => true
  | some topicName => topicName.text.length ≤ h.topicNameLen.toNat

end MessageHandler

/-- Whether a filter receives a topic, as a function of the filter's bytes. -/
def filterReceives (filter topicName : List UInt8) (topicNameLen : UInt16) : Bool :=
  (topicNameLen.toNat = filter.length && strncmpEq topicName filter topicNameLen.toNat) ||
    isTopicMatched (filter.takeWhile (· ≠ 0)) topicName

theorem MessageHandler.receives_eq_filterReceives {h : MessageHandler} (hwhole : h.isWhole = true)
    (hfree : h.isFree = false) (topicName : List UInt8) (topicNameLen : UInt16) :
    h.receives topicName topicNameLen = filterReceives h.filter topicName topicNameLen := by
  obtain ⟨name, len, qos, handler, data⟩ := h
  cases name with
  | none => cases hfree
  | some name =>
      have htext := takeWhile_memcpy name (of_decide_eq_true hwhole)
      simp only [receives, filterReceives, filter, length_memcpy, htext, UInt16.toNat_inj]
      by_cases hlen : topicNameLen = len
      · rw [hlen, strncmpEq_memcpy]
      · simp [hlen]

/-- The same bytes make the same text. -/
theorem CString.strcmpEq_of_memcpy_eq {a b : CString} {n m : Nat} (ha : a.text.length ≤ n)
    (hb : b.text.length ≤ m) (h : memcpy a.bytes n = memcpy b.bytes m) : a.strcmpEq b = true := by
  rw [CString.strcmpEq, decide_eq_true_iff, ← takeWhile_memcpy a ha, ← takeWhile_memcpy b hb, h]

end MqttClient
