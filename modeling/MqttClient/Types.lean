import Mathlib.Algebra.Order.Ring.Int
import Mathlib.Data.List.Basic

/-! # Return codes, client states and parameter blocks

The enumerations and plain records of the client interface. Character data is
a list of bytes; a `CString` is a buffer that contains its terminator.
-/

namespace MqttClient

inductive IotError where
  | networkPhysicalLayerConnected
  | networkManuallyDisconnected
  | networkAttemptingReconnect
  | networkReconnected
  | mqttNothingToRead
  | mqttConnackConnectionAccepted
  | success
  | failure
  | nullValueError
  | tcpConnectionError
  | sslConnectionError
  | tcpSetupError
  | networkSslConnectTimeoutError
  | networkSslWriteError
  | networkSslInitError
  | networkSslCertError
  | networkSslWriteTimeoutError
  | networkSslReadTimeoutError
  | networkSslReadError
  | networkDisconnectedError
  | networkReconnectTimedOutError
  | networkAlreadyConnectedError
  | networkMbedtlsErrCtrDrbgEntropySourceFailed
  | networkSslUnknownError
  | networkPhysicalLayerDisconnected
  | networkX509RootCrtParseError
  | networkX509DeviceCrtParseError
  | networkPkPrivateKeyParseError
  | networkErrNetSocketFailed
  | networkErrNetUnknownHost
  | networkErrNetConnectFailed
  | networkSslNothingToRead
  | mqttConnectionError
  | mqttConnectTimeoutError
  | mqttRequestTimeoutError
  | mqttUnexpectedClientStateError
  | mqttClientNotIdleError
  | mqttRxMessagePacketTypeInvalidError
  | mqttRxBufferTooShortError
  | mqttTxBufferTooShortError
  | mqttMaxSubscriptionsReachedError
  | mqttDecodeRemainingLengthError
  | mqttConnackUnknownError
  | mqttConnackUnacceptableProtocolVersionError
  | mqttConnackIdentifierRejectedError
  | mqttConnackServerUnavailableError
  | mqttConnackBadUserdataError
  | mqttConnackNotAuthorizedError
  | jsonParseError
  | shadowWaitForPublish
  | shadowJsonBufferTruncated
  | shadowJsonError
  | mutexInitError
  | mutexLockError
  | mutexUnlockError
  | mutexDestroyError
  deriving DecidableEq

/-- The codes above zero are notices, not errors. -/
def IotError.isError : IotError → Bool
  | .networkPhysicalLayerConnected | .networkManuallyDisconnected | .networkAttemptingReconnect
  | .networkReconnected | .mqttNothingToRead | .mqttConnackConnectionAccepted | .success => false
  | _ => true

/-- The errors that do not say that the connection is lost. -/
def IotError.isOwnError (rc : IotError) : Bool := rc.isError && rc ≠ .networkDisconnectedError

inductive ClientState where
  | invalid
  | initialized
  | connecting
  | connectedIdle
  | connectedYieldInProgress
  | connectedPublishInProgress
  | connectedSubscribeInProgress
  | connectedUnsubscribeInProgress
  | connectedResubscribeInProgress
  | connectedWaitForCbReturn
  | disconnecting
  | disconnectedError
  | disconnectedManually
  | pendingReconnect
  deriving DecidableEq

/-- `aws_iot_mqtt_is_client_connected`, as a function of the state. -/
def ClientState.isConnected : ClientState → Bool
  | .connectedIdle | .connectedYieldInProgress | .connectedPublishInProgress
  | .connectedSubscribeInProgress | .connectedUnsubscribeInProgress
  | .connectedResubscribeInProgress | .connectedWaitForCbReturn => true
  | _ => false

/-- `_aws_iot_mqtt_is_client_state_valid_for_connect`. -/
def ClientState.isValidForConnect : ClientState → Bool
  | .initialized | .disconnectedError | .disconnectedManually | .pendingReconnect => true
  | _ => false

/-- `MessageTypes`. -/
inductive MessageType where
  | unknown
  | connect
  | connack
  | publish
  | puback
  | pubrec
  | pubrel
  | pubcomp
  | subscribe
  | suback
  | unsubscribe
  | unsuback
  | pingreq
  | pingresp
  | disconnect
  deriving DecidableEq

/-- The type nibble of an incoming header byte. Nibbles 0 and 15 name no packet. -/
def MessageType.ofNibble (n : UInt8) : MessageType :=
  match n.toNat with
  | 1 => .connect
  | 2 => .connack
  | 3 => .publish
  | 4 => .puback
  | 5 => .pubrec
  | 6 => .pubrel
  | 7 => .pubcomp
  | 8 => .subscribe
  | 9 => .suback
  | 10 => .unsubscribe
  | 11 => .unsuback
  | 12 => .pingreq
  | 13 => .pingresp
  | 14 => .disconnect
  | _ => .unknown

/-- `QoS`. Deserialized fields and granted codes are cast into this enum
unchecked, so it holds any byte. -/
abbrev QoS := UInt8

def qos0 : QoS := 0
def qos1 : QoS := 1

/-- A buffer of the caller that contains a terminator. -/
structure CString where
  bytes : List UInt8
  nul : 0 ∈ bytes

/-- The characters before the first terminator. -/
def CString.text (s : CString) : List UInt8 := s.bytes.takeWhile (· ≠ 0)

/-- `strcmp(a, b) == 0`. -/
def CString.strcmpEq (a b : CString) : Bool := a.text = b.text

/-- `strncmp(a, b, n) == 0` on characters that are 0 past the end. -/
def strncmpEq : List UInt8 → List UInt8 → Nat → Bool
  | _, _, 0 => true
  | a, b, n + 1 =>
      if a.headD 0 ≠ b.headD 0 then false
      else if a.headD 0 = 0 then true
      else strncmpEq a.tail b.tail n

/-- `IoT_MQTT_Will_Options`. -/
structure WillOptions where
  topicName : List UInt8
  topicNameLen : UInt16
  message : List UInt8
  msgLen : UInt16
  isRetained : Bool
  qos : QoS

/-- `IoT_Client_Connect_Params`. A missing pointer is `none`. -/
structure ConnectParams where
  mqttVersion : UInt8
  clientID : Option (List UInt8)
  clientIDLen : UInt16
  keepAliveIntervalInSec : UInt16
  isCleanSession : Bool
  isWillMsgPresent : Bool
  will : WillOptions
  username : Option (List UInt8)
  usernameLen : UInt16
  password : Option (List UInt8)
  passwordLen : UInt16

/-- `IoT_Client_Connect_Params_initializer`. -/
def connectParamsInitializer : ConnectParams where
  mqttVersion := 4
  clientID := none
  clientIDLen := 0
  keepAliveIntervalInSec := 60
  isCleanSession := true
  isWillMsgPresent := false
  will := ⟨[], 0, [], 0, false, qos0⟩
  username := none
  usernameLen := 0
  password := none
  passwordLen := 0

/-- The functions an application registers are known to the client by name only. -/
abbrev HandlerName := Nat

/-- `IoT_Client_Init_Params`, less the TLS settings that are only passed on. -/
structure InitParams where
  enableAutoReconnect : Bool
  hostURL : Option (List UInt8)
  port : UInt16
  rootCALocation : Option (List UInt8)
  deviceCertLocation : Option (List UInt8)
  devicePrivateKeyLocation : Option (List UInt8)
  mqttPacketTimeoutMs : UInt32
  mqttCommandTimeoutMs : UInt32
  disconnectHandler : Option HandlerName

/-- `IoT_Publish_Message_Params` of a caller. -/
structure PublishParams where
  qos : QoS
  isRetained : UInt8
  isDup : UInt8
  id : UInt16
  payload : Option (List UInt8)
  payloadLen : Nat

/-- `MessageHandlers`. A slot is free when its topic name is missing. -/
structure MessageHandler where
  topicName : Option CString
  topicNameLen : UInt16
  qos : QoS
  applicationHandler : Option HandlerName
  applicationHandlerData : Nat

end MqttClient
