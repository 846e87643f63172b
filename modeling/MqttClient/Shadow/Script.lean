import MqttClient.Shadow.Api

/-! # Scripted runs of the shadow layer

A layer to start from, and an environment that answers from a script: which
packets arrive and when the client is done, which calls the application makes,
and which timers have expired. Whatever the script leaves open goes well.
-/

namespace MqttClient.Shadow

open Effect Program

/-- The layer in memory that was zeroed, with empty tables. -/
def blankWorld : World where
  ackWaitList _ := ⟨[], [], .get, none, 0, true⟩
  subscriptionList _ := ⟨[], 0, true, false⟩
  messageHandlers _ := none
  readBuf _ := 0
  shadowRxBuf _ := 0
  jsonTokenStruct := List.replicate maxJsonTokenExpected .blank
  tokenTable := []
  deltaTopicSubscribedFlag := false
  shadowDeltaTopic := []
  deleteAcceptedTopic := []
  myThingName := []
  mqttClientID := []
  clientTokenNum := 0
  shadowJsonVersionNum := 0
  shadowDiscardOldDeltaFlag := true
  trace := []

/-- What is going to happen, in the order in which it is asked for. -/
structure Script where
  traffic : List Traffic
  calls : List (Option Call)
  expired : List Bool

def Script.answer (script : Script) : (q : Query) → Answer q × Script
  | .application => (script.calls.head?.getD none, { script with calls := script.calls.tail })
  | .wait _ =>
      (script.traffic.head?.getD (.done .success), { script with traffic := script.traffic.tail })
  | .hasTimerExpired _ =>
      (script.expired.head?.getD false, { script with expired := script.expired.tail })
  | .isClientConnected | .hasSettlingTimeExpired => (true, script)
  | .indeterminate => ((0 : UInt32), script)
  | .beforeSubscriptionList => (⟨[], 0, true, false⟩, script)
  | .formerLocal => (([] : List UInt8), script)
  | .claim _ | .send _ | .release _ => (IotError.success, script)

/-- The application at work, after `n` steps. -/
def Script.reached (script : Script) (fuel n : Nat) : M Unit × World :=
  (app fuel).advance Script.answer n script blankWorld

/-- In these steps the answers are `ok` and every atomic step is `may`. -/
def Script.movesTo (script : Script) (ok : (q : Query) → World → Answer q → Bool)
    (may : World → World → Bool) (fuel n : Nat) : Bool :=
  (app fuel).movesTo Script.answer ok may n script blankWorld

theorem Script.moves_reached {allow : (q : Query) → World → Answer q → Prop}
    {may : World → World → Prop} {ok : (q : Query) → World → Answer q → Bool}
    {mayBool : World → World → Bool} (hallow : ∀ q w a, ok q w a = true → allow q w a)
    (hmay : ∀ s t, mayBool s t = true → may s t) {script : Script} {fuel n : Nat}
    (h : script.movesTo ok mayBool fuel n = true) :
    Moves allow may (app fuel, blankWorld)
      ((script.reached fuel n).1, (script.reached fuel n).2) :=
  moves_advance hallow hmay n h

/-- Whatever has been reached was reached somehow. -/
theorem Script.moves_anyhow (script : Script) (fuel n : Nat) :
    Moves (fun _ _ _ => True) (fun _ _ => True) (app fuel, blankWorld)
      ((script.reached fuel n).1, (script.reached fuel n).2) :=
  script.moves_reached (fun _ _ _ _ => trivial) (fun _ _ _ => trivial)
    (movesTo_anything n (app fuel) script blankWorld)

theorem Script.move_reached {allow : (q : Query) → World → Answer q → Prop}
    {may : World → World → Prop} {script : Script} {fuel n : Nat}
    (hact : (script.reached fuel n).1.isAct = true)
    (hmay : may (script.reached fuel n).2 (script.reached fuel (n + 1)).2) :
    Move allow may ((script.reached fuel n).1, (script.reached fuel n).2)
      ((script.reached fuel (n + 1)).1, (script.reached fuel (n + 1)).2) :=
  move_advance hact hmay

/-! ## Samples -/

/-- A text written as a string constant. -/
def sampleText (s : String) : Text := Text.ofChars (ascii s)

/-- The remaining length of a packet, in two bytes. -/
def remainingLength (n : Nat) : List UInt8 := [UInt8.ofNat (128 + n % 128), UInt8.ofNat (n / 128)]

/-- A QoS 0 message. -/
def messagePacket (topic payload : List UInt8) : List UInt8 :=
  48 :: (remainingLength (2 + topic.length + payload.length) ++
    [UInt8.ofNat (topic.length / 256), UInt8.ofNat (topic.length % 256)] ++ topic ++ payload)

/-- A message on a topic, both written as string constants. -/
def sampleMessage (topic payload : String) : Traffic :=
  .packet (messagePacket (ascii topic) (ascii payload))

def connectAs (thing : String) : Call :=
  .connect (some ⟨sampleText thing, some (sampleText "c"), none⟩)

/-- The topic of deltas is subscribed for this key. -/
def registerKey (key : String) (callback : Option CallbackName) : Call :=
  .registerDelta (some ⟨ascii key, .int32, callback⟩)

end MqttClient.Shadow
