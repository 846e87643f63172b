import MqttClient.Client.World

/-! # Packets on the network

Sending what the transmit buffer holds, and reading one packet into the
receive buffer.
-/

namespace MqttClient

open Effect

/-- Serialize into the transmit buffer, then go on with the packet's length. -/
def serialized (make : Client → Except IotError (List UInt8)) (next : Nat → M IotError) :
    M IotError := do
  let c ← getClient
  match make c with
  | .error rc => return rc
  | .ok packet => do
      modifyClient fun c => { c with writeBuf := c.writeBuf.store 0 packet }
      next packet.length

/-- One turn of the loop of `internalSendPacket`, after `sent` bytes. The length
offered is always that of the whole packet. -/
def sendPacketStep (length : Nat) (timer : TimerName) (sent : Nat) : M (Nat ⊕ Nat) := do
  if sent < length then
    let expired ← hasTimerExpired timer
    if expired then return .inr sent
    else
      let c ← getClient
      let (rc, sentLen) ← netWrite (c.writeBuf.load sent length)
      if rc = .success then return .inl (sent + sentLen) else return .inr sent
  else return .inr sent

/-- `aws_iot_mqtt_internal_send_packet`. -/
def internalSendPacket (fuel length : Nat) (timer : TimerName) : M IotError := do
  let c ← getClient
  if length ≥ c.writeBufSize then return .mqttTxBufferTooShortError
  else
    let rc ← lockMutex .tlsWrite
    onSuccess rc do
      let sent ← Program.loop (sendPacketStep length timer) fuel 0
      let rc ← unlockMutex .tlsWrite
      onSuccess rc do
        if sent = length then
          Program.modify fun w => w.log (.sent (w.client.writeBuf.load 0 length))
          return .success
        else return .failure

/-- The variables of the loop of `decodePacketRemainingLen`. -/
structure LengthProgress where
  len : Nat
  multiplier : Nat
  remLen : Nat

/-- One turn of the loop of `decodePacketRemainingLen`. The read answers its
length, one, in the very variable that counts the bytes. -/
def decodePacketRemainingLenStep (p : LengthProgress) :
    M (LengthProgress ⊕ Except IotError Nat) := do
  if p.len + 1 > maxNoOfRemainingLengthBytes then
    return .inr (.error .mqttDecodeRemainingLengthError)
  else
    let r ← netReadByte .length
    match r with
    | .error rc => return .inr (.error rc)
    | .ok encodedByte =>
        let remLen := (p.remLen + encodedByte.toNat % 128 * p.multiplier) % 2 ^ 64
        if encodedByte.toNat < 128 then return .inr (.ok remLen)
        else return .inl ⟨1, p.multiplier * 128 % 2 ^ 64, remLen⟩

/-- `_aws_iot_mqtt_internal_decode_packet_remaining_len`. -/
def decodePacketRemainingLen (fuel : Nat) : M (Except IotError Nat) :=
  Program.loop decodePacketRemainingLenStep fuel ⟨0, 1, 0⟩

/-- The variables of the drain loop of `internalReadPacket`. -/
structure DrainProgress where
  totalBytesRead : Nat
  bytesToBeRead : Nat

/-- One turn of the drain loop. -/
def drainStep (remLen readBufSize : Nat) (p : DrainProgress) : M (DrainProgress ⊕ Unit) := do
  let rc ← netReadToBuffer .drain 0 p.bytesToBeRead
  if rc = .success then
    let totalBytesRead := p.totalBytesRead + p.bytesToBeRead
    let bytesToBeRead :=
      if remLen - totalBytesRead ≥ readBufSize then readBufSize else remLen - totalBytesRead
    if totalBytesRead < remLen then return .inl ⟨totalBytesRead, bytesToBeRead⟩
    else return .inr ()
  else return .inr ()

/-- `if(rem_len > 0)`: read the rest of the packet. -/
def readRemaining (off remLen : Nat) : M IotError :=
  if remLen > 0 then netReadToBuffer .body off remLen else return .success

/-- Put the length back into the receive buffer, behind the header. -/
def World.withLength (w : World) (field : List UInt8) : World :=
  (w.onClient fun c => { c with readBuf := c.readBuf.store 1 field }).log (.stored 1 field.length)

/-- Step 3 of `internalReadPacket`: re-encode the length, then read the body. -/
def readPacketBody (remLen : Nat) : M (Except IotError UInt8) := do
  Program.modify (·.withLength (writeLenToBuffer remLen))
  let rc ← readRemaining (1 + (writeLenToBuffer remLen).length) remLen
  if rc = .success then
    let c ← getClient
    let packetType := headerType (c.readBuf 0)
    emit (.received (MessageType.ofNibble packetType))
    return .ok packetType
  else return .error .failure

/-- The part of `internalReadPacket` behind the remaining length. -/
def readPacketOfLength (fuel remLen : Nat) : M (Except IotError UInt8) := do
  let c ← getClient
  if remLen ≥ c.readBufSize then
    Program.loop (drainStep remLen c.readBufSize) fuel ⟨0, c.readBufSize⟩
    return .error .mqttRxBufferTooShortError
  else readPacketBody remLen

/-- `_aws_iot_mqtt_internal_read_packet`: the packet type, if it succeeds. -/
def internalReadPacket (fuel : Nat) : M (Except IotError UInt8) := do
  let c ← getClient
  countdown .packet c.packetTimeoutMs
  let rc ← netReadToBuffer .header 0 1
  if rc = .networkSslNothingToRead then return .error .mqttNothingToRead
  else if rc ≠ .success then return .error rc
  else
    let r ← decodePacketRemainingLen fuel
    match r with
    | .error rc => return .error rc
    | .ok remLen => readPacketOfLength fuel remLen

end MqttClient
