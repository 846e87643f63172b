import MqttClient.Client.Api

/-! # Concrete clients and scripted environments

A client to start from, and an environment that answers from a script: what
the next reads bring and which calls the application makes next. Whatever the
script leaves open goes well.
-/

namespace MqttClient

open Effect

/-- A client in memory that was zeroed. -/
def blankClient : Client where
  clientState := .invalid
  isPingOutstanding := false
  isAutoReconnectEnabled := false
  nextPacketId := 0
  packetTimeoutMs := 0
  commandTimeoutMs := 0
  keepAliveInterval := 0
  currentReconnectWaitInterval := 0
  counterNetworkDisconnected := 0
  writeBufSize := 0
  readBufSize := 0
  writeBuf _ := 0
  readBuf _ := 0
  options := connectParamsInitializer
  messageHandlers := ⟨List.replicate numSubscribeHandlers ⟨none, 0, qos0, none, 0⟩,
    List.length_replicate⟩
  disconnectHandler := none
  threadSupport := false

def sampleInitParams : InitParams where
  enableAutoReconnect := false
  hostURL := some [104]
  port := 8883
  rootCALocation := some [99]
  deviceCertLocation := some [100]
  devicePrivateKeyLocation := some [107]
  mqttPacketTimeoutMs := 1000
  mqttCommandTimeoutMs := 20000
  disconnectHandler := none

/-- A client as `aws_iot_mqtt_init` leaves it. -/
def freshClient : Client := blankClient.initialized sampleInitParams

/-! ## Scripts -/

/-- What the network brings next: a byte, an error, or nothing for now. -/
inductive Arrival where
  | byte (b : UInt8)
  | error
  | nothing

/-- What the network is going to bring, and which calls the application is
going to make whenever it runs. -/
structure Script where
  arrivals : List Arrival
  calls : List (Option Call)

namespace Script

/-- The bytes that arrive before an error or a pause. -/
def leadingBytes : List Arrival → List UInt8
  | .byte b :: rest => b :: leadingBytes rest
  | _ => []

def nothingRead (n : Nat) : ReadResult n :=
  .failure .networkSslNothingToRead [] nofun (Nat.zero_le _) fun _ => rfl

/-- A write that is accepted whole. -/
def fullyWritten (bytes : List UInt8) : WriteResult bytes.length :=
  ⟨.success, bytes.length, Nat.le_refl _⟩

/-- A read of `n` bytes. One that fails takes what has arrived so far. -/
def read (script : Script) (n : Nat) : ReadResult n × Script :=
  let bytes := leadingBytes (script.arrivals.take n)
  if h : bytes.length = n then
    (.success bytes h, { script with arrivals := script.arrivals.drop n })
  else
    let rest := script.arrivals.drop bytes.length
    let script' := { script with arrivals := rest.tail }
    match rest with
    | .nothing :: _ =>
        (.failure .networkSslNothingToRead [] nofun (Nat.zero_le _) fun _ => rfl, script')
    | _ => (.failure .networkSslReadError [] nofun (Nat.zero_le _) fun _ => rfl, script')

def answer (script : Script) : (q : Query) → Answer q × Script
  | .netRead _ n => script.read n
  | .netWrite bytes => (⟨.success, bytes.length, Nat.le_refl _⟩, script)
  | .hasTimerExpired timer =>
      (decide (timer = .yield) || decide (timer = .reconnectDelay), script)
  | .application => (script.calls.head?.getD none, { script with calls := script.calls.tail })
  | .netIsConnected => (.networkPhysicalLayerConnected, script)
  | .lock _ | .unlock _ => (true, script)
  | .netConnect | .netDisconnect | .netDestroy => (IotError.success, script)

end Script

/-- A call at a client, with what the network and the application do meanwhile:
its result, what is left of the script, and the world it leaves. -/
def World.perform (w : World) (fuel : Nat) (c : Call) (arrivals : List Arrival)
    (calls : List (Option Call)) : Option IotError × Script × World :=
  (api fuel c).run Script.answer ⟨arrivals, calls⟩ w

/-- Questions that have nothing to do with the application or with closing the transport. -/
def Query.isCalm : Query → Bool
  | .application | .netDestroy => false
  | _ => true

/-- What the environment is asked and answers during the call is `ok`. -/
def World.keepsTo (ok : (q : Query) → World → Answer q → Bool) (w : World) (fuel : Nat) (c : Call)
    (arrivals : List Arrival) (calls : List (Option Call)) : Bool :=
  (api fuel c).keepsTo Script.answer ok ⟨arrivals, calls⟩ w

/-- The call asks calm questions only. -/
def World.isCalm (w : World) (fuel : Nat) (c : Call) (arrivals : List Arrival) : Bool :=
  w.keepsTo (fun q _ _ => q.isCalm) fuel c arrivals []

/-- A call that is under way, after `n` steps. -/
def World.underway (w : World) (fuel : Nat) (c : Call) (arrivals : List Arrival)
    (calls : List (Option Call)) (n : Nat) : M IotError × World :=
  (api fuel c).advance Script.answer n ⟨arrivals, calls⟩ w

/-! ## A connected client with a subscription -/

def freshWorld : World := ⟨freshClient, [], []⟩

def packet (bytes : List UInt8) : List Arrival := bytes.map .byte

def connectCall : Call := .connect (some connectParamsInitializer)

def connackPacket : List Arrival := packet [0x20, 2, 0, 0]

def connectedWorld : World := (freshWorld.perform 20 connectCall connackPacket []).2.2

/-- The topic filters `a`, `b` and `c`. -/
def filterA : CString := ⟨[97, 0], by decide⟩
def filterB : CString := ⟨[98, 0], by decide⟩
def filterC : CString := ⟨[99, 0], by decide⟩

def subscribeCall (topicFilter : CString) : Call :=
  .subscribe (some topicFilter) 1 qos0 (some 0) 0

def subackPacket (packetId : UInt8) : List Arrival := packet [0x90, 3, 0, packetId, 0]

def subscribedWorld : World :=
  (connectedWorld.perform 20 (subscribeCall filterA) (subackPacket 2) []).2.2

/-- A message on the topic `a`. -/
def messagePacket : List Arrival := packet [0x30, 4, 0, 1, 97, 33]

def publishCall : Call := .publish (some [98]) 1 (some (.own ⟨qos1, 0, 0, 0, some [33], 1⟩))

def pubackPacket (packetId : UInt8) : List Arrival := packet [0x40, 2, 0, packetId]

theorem perform_connectCall :
    (freshWorld.perform 20 connectCall connackPacket []).1 = some .success := by decide +kernel

theorem isCalm_connectCall : freshWorld.isCalm 20 connectCall connackPacket = true := by
  decide +kernel

theorem perform_subscribeCall :
    (connectedWorld.perform 20 (subscribeCall filterA) (subackPacket 2) []).1 = some .success := by
  decide +kernel

theorem isCalm_subscribeCall :
    connectedWorld.isCalm 20 (subscribeCall filterA) (subackPacket 2) = true := by
  decide +kernel

end MqttClient
