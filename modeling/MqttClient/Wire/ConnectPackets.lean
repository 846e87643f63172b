import MqttClient.Wire.Identifiers
import MqttClient.Wire.LengthFields

/-! # What a CONNECT packet says

The layout of CONNECT in MQTT 3.1.1, read back: fixed header, protocol name and
level, flags, keep alive, and the strings that the flags announce.
-/

namespace MqttClient

structure Will where
  topic : List UInt8
  message : List UInt8
  qos : QoS
  retain : Bool
  deriving DecidableEq

/-- The contents of a CONNECT packet. -/
structure ConnectContent where
  clientID : List UInt8
  cleanSession : Bool
  keepAlive : UInt16
  will : Option Will
  username : Option (List UInt8)
  password : Option (List UInt8)
  deriving DecidableEq

/-! ## Reading -/

/-- A length field of at most `limit` bytes, and what follows it. -/
def readLengthField : Nat → List UInt8 → Option (Nat × List UInt8)
  | 0, _ | _, [] => none
  | limit + 1, b :: rest =>
      if b.toNat < 128 then some (b.toNat, rest)
      else (readLengthField limit rest).map fun (value, rest) => (b.toNat % 128 + 128 * value, rest)

/-- A string with its length in front, and what follows it. -/
def readString (bytes : List UInt8) : Option (List UInt8 × List UInt8) :=
  (leadingUint16 bytes).bind fun len =>
    let rest := bytes.drop 2
    if len.toNat ≤ rest.length then some (rest.take len.toNat, rest.drop len.toNat) else none

/-- A field that is only there if a flag says so. -/
def readIf {α : Type} (flag : Bool) (read : List UInt8 → Option (α × List UInt8))
    (bytes : List UInt8) : Option (Option α × List UInt8) :=
  if flag then (read bytes).map fun (a, rest) => (some a, rest) else some (none, bytes)

/-- Topic and message of a will. -/
def readWill (flags : UInt8) (bytes : List UInt8) : Option (Will × List UInt8) := do
  let (topic, rest) ← readString bytes
  let (message, rest) ← readString rest
  return (⟨topic, message, flags / 8 % 4, flags / 32 % 2 = 1⟩, rest)

/-- The payload behind flags and keep alive. -/
def readPayload (flags : UInt8) (keepAlive : UInt16) (bytes : List UInt8) :
    Option ConnectContent := do
  let (clientID, rest) ← readString bytes
  let (will, rest) ← readIf (flags / 4 % 2 = 1) (readWill flags) rest
  let (username, rest) ← readIf (flags / 128 % 2 = 1) readString rest
  let (password, rest) ← readIf (flags / 64 % 2 = 1) readString rest
  if rest = [] then
    some ⟨clientID, flags / 2 % 2 = 1, keepAlive, will, username, password⟩
  else none

/-- The variable header: protocol name, level, flags and keep alive. -/
def readConnectBody (bytes : List UInt8) : Option ConnectContent := do
  let (protocol, rest) ← readString bytes
  match rest with
  | level :: flags :: rest =>
      if protocol = [77, 81, 84, 84] ∧ level = 4 ∧ flags % 2 = 0 then
        let keepAlive ← leadingUint16 rest
        readPayload flags keepAlive (rest.drop 2)
      else none
  | _ => none

/-- The contents of a CONNECT packet that fills the list. -/
def decodeConnect : List UInt8 → Option ConnectContent
  | [] => none
  | header :: bytes =>
      if header = 16 then
        (readLengthField maxNoOfRemainingLengthBytes bytes).bind fun (remLen, rest) =>
          if remLen = rest.length then readConnectBody rest else none
      else none

/-! ## What parameters ask for -/

namespace ConnectParams

def givenWill (params : ConnectParams) : Option Will :=
  if params.isWillMsgPresent then
    some ⟨memcpy params.will.topicName params.will.topicNameLen.toNat,
      memcpy params.will.message params.will.msgLen.toNat, params.will.qos, params.will.isRetained⟩
  else none

/-- The connect that a caller's parameters describe. -/
def content (params : ConnectParams) : ConnectContent where
  clientID := params.clientID.elim [] (memcpy · params.clientIDLen.toNat)
  cleanSession := params.isCleanSession
  keepAlive := params.keepAliveIntervalInSec
  will := params.givenWill
  username := params.username.map (memcpy · params.usernameLen.toNat)
  password := params.password.map (memcpy · params.passwordLen.toNat)

/-- The connect that fits into the packet: there are two bits for the QoS. -/
def sentContent (params : ConnectParams) : ConnectContent :=
  { params.content with will := params.givenWill.map fun will => { will with qos := will.qos % 4 } }

/-- The QoS of a will fits where there is a will and the two bits can hold it. -/
theorem map_mod_four (params : ConnectParams) :
    (params.givenWill.map fun will => { will with qos := will.qos % 4 }) = params.givenWill ↔
      (params.isWillMsgPresent = true → params.will.qos < 4) := by
  have hmod : ∀ qos : QoS, qos % 4 = qos ↔ qos < 4 := by
    intro qos
    rw [← UInt8.toNat_inj, UInt8.toNat_mod, UInt8.lt_iff_toNat_lt]
    exact Nat.mod_eq_iff_lt (by decide)
  unfold givenWill
  split
  next h => simp [h, hmod]
  next h => simp [h]

end ConnectParams

/-! ## Reading what was written -/

theorem readLengthField_append {field : List UInt8} {limit : Nat} (rest : List UInt8)
    (hfield : isLengthField field = true) (hlimit : field.length ≤ limit) :
    readLengthField limit (field ++ rest) = some (lengthValue field, rest) := by
  induction field generalizing limit with
  | nil => cases hfield
  | cons b field ih =>
      obtain ⟨limit, rfl⟩ : ∃ l, limit = l + 1 :=
        ⟨limit - 1, by simp only [List.length_cons] at hlimit; omega⟩
      rw [List.cons_append, readLengthField]
      rcases isLengthField_cons hfield with ⟨rfl, hlast⟩ | ⟨hmore, hfield⟩
      · rw [if_pos hlast, lengthValue_cons, lengthValue_nil, Nat.mod_eq_of_lt hlast]
        rfl
      · rw [if_neg (Nat.not_lt.mpr hmore), ih hfield (Nat.le_of_succ_le_succ hlimit)]
        rfl

theorem readString_writeUtf8String (string : List UInt8) (stringLen : UInt16) (rest : List UInt8) :
    readString (writeUtf8String string stringLen ++ rest) =
      some (memcpy string stringLen.toNat, rest) := by
  have hdrop : (writeUtf8String string stringLen ++ rest).drop 2 =
      memcpy string stringLen.toNat ++ rest := by
    rw [writeUtf8String, List.append_assoc, List.drop_left' (length_writeUint16 _)]
  have hlength : stringLen.toNat ≤ (memcpy string stringLen.toNat ++ rest).length := by simp
  rw [readString, hdrop, writeUtf8String, List.append_assoc, leadingUint16_writeUint16,
    Option.bind_some]
  dsimp only
  rw [if_pos hlength, List.take_left' (length_memcpy _ _), List.drop_left' (length_memcpy _ _)]

/-! ### The flags -/

theorem mod_four_cases (qos : QoS) :
    qos % 4 = 0 ∨ qos % 4 = 1 ∨ qos % 4 = 2 ∨ qos % 4 = 3 := by
  have hlt : (qos % 4).toNat < 4 := by
    rw [UInt8.toNat_mod]
    exact Nat.mod_lt _ (by decide)
  simp only [← UInt8.toNat_inj]
  change (qos % 4).toNat = 0 ∨ (qos % 4).toNat = 1 ∨ (qos % 4).toNat = 2 ∨ (qos % 4).toNat = 3
  omega

/-- A flags byte, from its parts. -/
def packFlags (username password willRetain : Bool) (willQoS : UInt8) (will cleanSession : Bool) :
    UInt8 :=
  (if username then 1 else 0) * 128 + (if password then 1 else 0) * 64 +
    (if willRetain then 1 else 0) * 32 + willQoS * 8 + (if will then 1 else 0) * 4 +
    (if cleanSession then 1 else 0) * 2

/-- The parts of a flags byte can be read off it. -/
structure Flags (flags : UInt8) (username password willRetain : Bool) (willQoS : UInt8)
    (will cleanSession : Bool) : Prop where
  reserved : flags % 2 = 0
  cleanSession : decide (flags / 2 % 2 = 1) = cleanSession
  will : decide (flags / 4 % 2 = 1) = will
  willQoS : flags / 8 % 4 = willQoS
  willRetain : decide (flags / 32 % 2 = 1) = willRetain
  password : decide (flags / 64 % 2 = 1) = password
  username : decide (flags / 128 % 2 = 1) = username

theorem flags_packFlags (username password willRetain will cleanSession : Bool) {willQoS : UInt8}
    (hqos : willQoS = 0 ∨ willQoS = 1 ∨ willQoS = 2 ∨ willQoS = 3) :
    Flags (packFlags username password willRetain willQoS will cleanSession) username password
      willRetain willQoS will cleanSession := by
  rcases hqos with rfl | rfl | rfl | rfl <;>
    cases username <;> cases password <;> cases willRetain <;> cases will <;> cases cleanSession <;>
    exact ⟨by decide, by decide, by decide, by decide, by decide, by decide, by decide⟩

theorem flags_connectFlags (params : ConnectParams) :
    Flags (connectFlags params) params.username.isSome params.password.isSome
      (params.isWillMsgPresent && params.will.isRetained)
      (if params.isWillMsgPresent then params.will.qos % 4 else 0) params.isWillMsgPresent
      params.isCleanSession := by
  apply flags_packFlags
  split
  · exact mod_four_cases _
  · exact .inl rfl

/-! ### The packet -/

/-- The client identifier, as `serializeConnect` writes it. -/
def writeClientID (params : ConnectParams) : List UInt8 :=
  match params.clientID with
  | none => writeUint16 0
  | some clientID => writeUtf8String clientID params.clientIDLen

def writeWill (params : ConnectParams) : List UInt8 :=
  if params.isWillMsgPresent then
    writeUtf8String params.will.topicName params.will.topicNameLen ++
      writeUtf8String params.will.message params.will.msgLen else []

/-- A user name or a password, if there is one. -/
def writeCredential (credential : Option (List UInt8)) (len : UInt16) : List UInt8 :=
  match credential with
  | none => []
  | some credential => writeUtf8String credential len

/-- The fields behind the keep alive. -/
def writePayload (params : ConnectParams) : List UInt8 :=
  writeClientID params ++ (writeWill params ++
    (writeCredential params.username params.usernameLen ++
      writeCredential params.password params.passwordLen))

theorem readString_writeClientID (params : ConnectParams) (rest : List UInt8) :
    readString (writeClientID params ++ rest) = some (params.content.clientID, rest) := by
  unfold writeClientID ConnectParams.content
  cases params.clientID with
  | none => exact readString_writeUtf8String [] 0 rest
  | some clientID => exact readString_writeUtf8String clientID params.clientIDLen rest

theorem readIf_writeWill {params : ConnectParams} {flags : UInt8} (rest : List UInt8)
    (hqos : params.isWillMsgPresent = true → flags / 8 % 4 = params.will.qos % 4)
    (hretain : params.isWillMsgPresent = true →
      decide (flags / 32 % 2 = 1) = params.will.isRetained) :
    readIf params.isWillMsgPresent (readWill flags) (writeWill params ++ rest) =
      some (params.sentContent.will, rest) := by
  unfold ConnectParams.sentContent ConnectParams.givenWill writeWill readIf
  cases hwill : params.isWillMsgPresent with
  | false => rfl
  | true =>
      simp only [if_true, readWill, List.append_assoc, readString_writeUtf8String, hqos hwill,
        hretain hwill, bind, Option.bind_some, Option.map_some, pure]

theorem readIf_writeCredential (credential : Option (List UInt8)) (len : UInt16)
    (rest : List UInt8) :
    readIf credential.isSome readString (writeCredential credential len ++ rest) =
      some (credential.map (memcpy · len.toNat), rest) := by
  cases credential with
  | none => rfl
  | some credential =>
      rw [writeCredential, Option.isSome_some, readIf, if_pos rfl, readString_writeUtf8String]
      rfl

theorem readPayload_writePayload (params : ConnectParams) :
    readPayload (connectFlags params) params.keepAliveIntervalInSec (writePayload params) =
      some params.sentContent := by
  obtain ⟨-, hclean, hwill, hqos, hretain, hpassword, husername⟩ := flags_connectFlags params
  have hreadWill := @readIf_writeWill params (connectFlags params)
    (writeCredential params.username params.usernameLen ++
      writeCredential params.password params.passwordLen)
    (fun hpresent => by rw [hqos, if_pos hpresent])
    (fun hpresent => by rw [hretain, hpresent, Bool.true_and])
  have hreadPassword := readIf_writeCredential params.password params.passwordLen []
  rw [List.append_nil] at hreadPassword
  simp only [readPayload, writePayload, readString_writeClientID, bind, Option.bind_some, hwill,
    hreadWill, husername, readIf_writeCredential, hpassword, hreadPassword, if_true, hclean]
  rfl

/-- The bytes of a CONNECT packet. Without an identifier its length is zero. -/
theorem serializeConnect_ok {txBufLen : Nat} {params : ConnectParams} {packet : List UInt8}
    (h : serializeConnect txBufLen params = .ok packet) :
    (params.clientID = none → params.clientIDLen = 0) ∧
      packet = 16 :: (writeLenToBuffer (getConnectPacketLength params) ++
        (writeUtf8String [77, 81, 84, 84] 4 ++ (4 :: connectFlags params ::
          (writeUint16 params.keepAliveIntervalInSec ++ writePayload params)))) := by
  unfold serializeConnect at h
  split at h
  · cases h
  · rename_i hclient
    split at h
    · cases h
    · rename_i hversion
      dsimp only at h
      split at h
      · cases h
      · rw [not_not.mp hversion] at h
        cases h
        refine ⟨fun hnone => ?_, ?_⟩
        · simpa [hnone] using hclient
        · simp only [writePayload, writeClientID, writeWill, writeCredential, List.cons_append,
            List.append_assoc, List.nil_append]
          rfl

theorem length_writePayload {params : ConnectParams}
    (hclient : params.clientID = none → params.clientIDLen = 0) :
    (writePayload params).length + 10 = getConnectPacketLength params := by
  have hid : (writeClientID params).length = params.clientIDLen.toNat + 2 := by
    unfold writeClientID
    cases hid : params.clientID with
    | none =>
        rw [hclient hid]
        rfl
    | some clientID => exact length_writeUtf8String _ _
  have hwill : (writeWill params).length = if params.isWillMsgPresent then
      params.will.topicNameLen.toNat + 2 + (params.will.msgLen.toNat + 2) else 0 := by
    unfold writeWill
    split
    · rw [List.length_append, length_writeUtf8String, length_writeUtf8String]
    · rfl
  have hcredential (credential : Option (List UInt8)) (len : UInt16) :
      (writeCredential credential len).length = if credential.isSome then len.toNat + 2 else 0 := by
    cases credential with
    | none => rfl
    | some credential => exact length_writeUtf8String _ _
  simp only [writePayload, List.length_append, hid, hwill, hcredential, getConnectPacketLength]
  split <;> split <;> split <;> omega

theorem getConnectPacketLength_lt (params : ConnectParams) :
    getConnectPacketLength params < 2 ^ 19 := by
  have hid := params.clientIDLen.toNat_lt
  have htopic := params.will.topicNameLen.toNat_lt
  have hmessage := params.will.msgLen.toNat_lt
  have husername := params.usernameLen.toNat_lt
  have hpassword := params.passwordLen.toNat_lt
  simp only [getConnectPacketLength]
  split <;> split <;> split <;> omega

/-- A CONNECT packet says what it was made from, but for two bits of QoS. -/
theorem decodeConnect_serializeConnect {txBufLen : Nat} {params : ConnectParams}
    {packet : List UInt8} (h : serializeConnect txBufLen params = .ok packet) :
    decodeConnect packet = some params.sentContent := by
  obtain ⟨hclient, rfl⟩ := serializeConnect_ok h
  have hlt := getConnectPacketLength_lt params
  have hfield : (writeLenToBuffer (getConnectPacketLength params)).length ≤
      maxNoOfRemainingLengthBytes :=
    length_writeLenToBuffer_le _ 4 (by decide) (Nat.lt_trans hlt (by decide))
  have hvalue : lengthValue (writeLenToBuffer (getConnectPacketLength params)) =
      getConnectPacketLength params :=
    lengthValue_writeLenToBuffer (Nat.lt_trans hlt (by decide))
  have hlength := length_writePayload hclient
  have hbody : readConnectBody (writeUtf8String [77, 81, 84, 84] 4 ++ (4 :: connectFlags params ::
      (writeUint16 params.keepAliveIntervalInSec ++ writePayload params))) =
      some params.sentContent := by
    have hprotocol : memcpy [77, 81, 84, 84] (4 : UInt16).toNat = [77, 81, 84, 84] := rfl
    rw [readConnectBody, readString_writeUtf8String, hprotocol]
    simp only [bind, Option.bind_some, (flags_connectFlags params).reserved, and_self, if_true,
      leadingUint16_writeUint16, List.drop_left' (length_writeUint16 _), readPayload_writePayload]
  rw [decodeConnect, if_pos rfl,
    readLengthField_append _ (isLengthField_writeLenToBuffer _) hfield, Option.bind_some, hvalue]
  dsimp only
  rw [if_pos, hbody]
  simp only [List.length_append, List.length_cons, length_writeUtf8String, length_writeUint16]
  have hfour : (4 : UInt16).toNat = 4 := rfl
  omega

end MqttClient
