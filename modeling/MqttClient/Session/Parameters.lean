import MqttClient.Session.Nesting
import MqttClient.Session.Records
import MqttClient.Wire.ConnectPackets

/-! # Connecting with the caller's parameters

The parameters of a connect are copied into the client's options and serialized
from there. The packet with which a connect begins says what the options say.
-/

namespace MqttClient

open Effect Program

/-- The first packet on record as sent. -/
def Trace.firstSent : Trace → Option (List UInt8)
  | [] => none
  | .sent packet :: t => some ((firstSent t).getD packet)
  | _ :: t => firstSent t

theorem Trace.firstSent_of_some {t : Trace} {packet : List UInt8} (h : t.firstSent = some packet)
    (e : Event) : firstSent (e :: t) = some packet := by
  cases e with
  | sent => rw [firstSent, h, Option.getD_some]
  | _ => exact h

theorem Trace.firstSent_append {t : Trace} {packet : List UInt8} (h : t.firstSent = some packet)
    (ev : List Event) : firstSent (ev ++ t) = some packet := by
  induction ev with
  | nil => exact h
  | cons e ev ih => exact firstSent_of_some ih e

theorem Trace.firstSent_of_isSent {e : Event} (h : e.isSent = false) (t : Trace) :
    firstSent (e :: t) = firstSent t := by
  cases e <;> first | rfl | cases h

theorem Trace.firstSent_unsent {ev : List Event} (h : ∀ e ∈ ev, e.isSent = false) (t : Trace) :
    firstSent (ev ++ t) = firstSent t := by
  induction ev with
  | nil => rfl
  | cons e ev ih =>
      rw [List.cons_append, firstSent_of_isSent (h e List.mem_cons_self)]
      exact ih fun e' he' => h e' (List.mem_cons_of_mem e he')

/-- In every run of a connect, the packet it begins with says what the
parameters say. -/
def Client.SendsGiven (c : Client) (params : ConnectParams) : Prop :=
  ∀ fuel p w, Steps anything (api fuel (.connect (some params)), ⟨c, [], []⟩) (p, w) →
    ∀ packet, w.trace.firstSent = some packet → decodeConnect packet = some params.content

/-- A connect with these parameters can succeed. -/
def Client.Accepts (c : Client) (params : ConnectParams) : Prop :=
  ∃ fuel w, Returns anything (api fuel (.connect (some params))) ⟨c, [], []⟩ .success w

/-- What is sent for the password are the first bytes of the user name, and for
the QoS of the will its last two bits. -/
structure ConnectParams.IsCarried (params : ConnectParams) : Prop where
  password : params.username.map (memcpy · params.passwordLen.toNat) =
    params.password.map (memcpy · params.passwordLen.toNat)
  willQoS : params.isWillMsgPresent = true → params.will.qos < 4

namespace Parameters

/-- The first packet, if one has been sent, is the one made from the options. -/
def BeginsWith (txBufLen : Nat) (options : ConnectParams) (w : World) : Prop :=
  ∀ packet, w.trace.firstSent = some packet → serializeConnect txBufLen options = .ok packet

variable {options : ConnectParams} {txBufLen : Nat} {packet : List UInt8}

theorem beginsWith_of_none {w : World} (h : w.trace.firstSent = none) :
    BeginsWith txBufLen options w := by
  intro packet hpacket
  rw [h] at hpacket
  cases hpacket

/-! ## Behind the CONNECT packet -/

section Sent

variable (hpacket : serializeConnect txBufLen options = .ok packet)

include hpacket

theorem beginsWith_of_firstSent {w : World} (h : w.trace.firstSent = some packet) :
    BeginsWith txBufLen options w := by
  intro packet' h'
  rw [h] at h'
  cases h'
  exact hpacket

theorem firstSent_of_adds {E : Event → Prop} {s t : World} (hs : s.trace.firstSent = some packet)
    (h : Adds E s t) :
    BeginsWith txBufLen options t ∧ t.trace.firstSent = some packet ∧ True := by
  obtain ⟨ev, htrace, -⟩ := h
  have ht : t.trace.firstSent = some packet := by
    rw [htrace]
    exact Trace.firstSent_append hs ev
  exact ⟨beginsWith_of_firstSent hpacket ht, ht, trivial⟩

theorem firstSent_of_log {s t : World} (hs : s.trace.firstSent = some packet) {e : Event}
    (htrace : t.trace = e :: s.trace) :
    BeginsWith txBufLen options t ∧ t.trace.firstSent = some packet ∧ True :=
  firstSent_of_adds hpacket (E := fun _ => True) hs (adds_one htrace trivial)

theorem steady : Steady (fun _ _ => True) (fun _ t => BeginsWith txBufLen options t)
    (fun w => w.trace.firstSent = some packet) (fun _ _ => True) fun _ => True where
  refl _ := trivial
  trans _ _ _ _ _ := trivial
  pre _ _ _ _ := trivial
  still _ _ hs h := firstSent_of_adds hpacket hs h.adds
  enter _ _ _ hs :=
    have h := firstSent_of_log hpacket hs rfl
    ⟨h.1, h.2.1⟩
  leave _ _ _ _ _ _ ht _ := firstSent_of_log hpacket ht rfl

theorem allSteps : AllSteps (fun _ => True) fun _ p => Kept (fun _ _ => True) anything
    (fun _ t => BeginsWith txBufLen options t) (fun w => w.trace.firstSent = some packet)
    (fun _ _ => True) p :=
  (steady hpacket).allSteps (fun _ _ hs h => firstSent_of_adds hpacket hs h.adds)
    (fun _ _ hs h => firstSent_of_adds hpacket hs h.adds)
    fun _ _ hs h => firstSent_of_adds hpacket hs h.adds

theorem kept_init (params : InitParams) : Kept (fun _ _ => True) anything
    (fun _ t => BeginsWith txBufLen options t) (fun w => w.trace.firstSent = some packet)
    (fun _ _ => True) (init params) := by
  intro s hs
  unfold init
  split
  next =>
    simp only [wp_bind, wp_modifyClient, wp_emit, pure_eq, wp_ret]
    exact ⟨beginsWith_of_firstSent hpacket hs, firstSent_of_log hpacket hs rfl⟩
  next => exact ⟨hs, trivial⟩

/-- What the calls of handlers send comes later. -/
theorem kept_api (fuel : Nat) (c : Call) : Kept (fun _ _ => True) anything
    (fun _ t => BeginsWith txBufLen options t) (fun w => w.trace.firstSent = some packet)
    (fun _ _ => True) (api fuel c) := by
  intro s hs
  refine wp_recursive
    (D := solo (fun _ _ => True) anything fun _ t => BeginsWith txBufLen options t)
    (P := fun _ s => s.trace.firstSent = some packet)
    (Φ := fun _ _ _ t => t.trace.firstSent = some packet ∧ True) (fun _ _ _ => trivial)
    (fun fuel call hcall c s hs => ?_) fuel c s hs
  have hcalls : ∀ c s, s.trace.firstSent = some packet → anything.allowsCall s c → _ :=
    fun c s hs _ => hcall c s hs
  have happ := (steady hpacket).application (fun _ _ => trivial) hcalls fuel
  have hread := (allSteps hpacket).internalCycleRead
    ((allSteps hpacket).internalDeliverMessage (fun _ => trivial) happ
      fun _ => (allSteps hpacket).setClientState _ _ _)
  refine (allSteps hpacket).framed (f := .call c) trivial ?_ s hs
  apply (allSteps hpacket).perform (fun _ _ => trivial) (fun _ => trivial) happ hread _ c
    fun params _ => kept_init hpacket params
  intro params
  apply (allSteps hpacket).connect
  apply (allSteps hpacket).connectFrom trivial
  exact ((allSteps hpacket).composes fun _ =>
    (allSteps hpacket).internalWaitForRead hread trivial).handshake

/-- The part of a handshake behind its packet. -/
theorem kept_await (fuel depth : Nat) {next : M IotError}
    (hnext : Kept (fun _ _ => True) anything (fun _ t => BeginsWith txBufLen options t)
      (fun w => w.trace.firstSent = some packet) (fun _ _ => True) next) :
    Kept (fun _ _ => True) anything (fun _ t => BeginsWith txBufLen options t)
      (fun w => w.trace.firstSent = some packet) (fun _ _ => True)
      (internalWaitForRead fuel (api depth) .connack >>= fun rc => onSuccess rc next) := by
  have hcalls : ∀ c s, s.trace.firstSent = some packet → anything.allowsCall s c → _ :=
    fun c s hs _ => kept_api hpacket depth c s hs
  have happ := (steady hpacket).application (fun _ _ => trivial) hcalls fuel
  have hread := (allSteps hpacket).internalCycleRead
    ((allSteps hpacket).internalDeliverMessage (fun _ => trivial) happ
      fun _ => (allSteps hpacket).setClientState _ _ _)
  exact ((allSteps hpacket).composes fun _ =>
    (allSteps hpacket).internalWaitForRead hread trivial).await .connack hnext

end Sent

/-! ## The connect -/

/-- Under this discipline a run begins with the packet made from the options. -/
abbrev discipline (txBufLen : Nat) (options : ConnectParams) : Discipline World Answer :=
  observed anything fun _ t => BeginsWith txBufLen options t

/-- The packet has been sent, if the code is `SUCCESS`. -/
def Begun (txBufLen : Nat) (options : ConnectParams) (rc : IotError) (w : World) : Prop :=
  BeginsWith txBufLen options w ∧ (rc = .success → w.trace.firstSent ≠ none)

theorem Begun.of_none {rc : IotError} {w : World} (h : w.trace.firstSent = none)
    (hrc : rc ≠ .success) : Begun txBufLen options rc w :=
  ⟨beginsWith_of_none h, fun h => absurd h hrc⟩

theorem firstSent_of_writes {s t : World} (h : Writes s t) :
    t.trace.firstSent = s.trace.firstSent := by
  obtain ⟨ev, htrace, hev⟩ := h.unsent
  rw [htrace]
  exact Trace.firstSent_unsent hev _

theorem wp_handshake (fuel depth : Nat) {s : World} (hs : s.trace.firstSent = none)
    (hsize : s.client.writeBufSize = txBufLen) (hoptions : s.client.options = options) :
    wp (discipline txBufLen options) (handshake fuel (api depth))
      (fun rc t => Begun txBufLen options rc t) s := by
  simp only [handshake, wp_bind, wp_getClient, countdown, wp_emit, wp_modifyClient]
  refine ⟨beginsWith_of_none hs, beginsWith_of_none hs, beginsWith_of_none hs,
    wp_serialized (beginsWith_of_none hs) (fun rc hrc => ?_) fun packet hpacket => ?_⟩
  · exact .of_none hs ((reportsErrors_serializeConnect _ _).ne_success hrc)
  · simp only [World.client_onClient, World.client_log, hsize, hoptions] at hpacket
    refine ⟨beginsWith_of_none hs, ?_⟩
    generalize ht : ((s.log _).onClient _).onClient _ = t
    have htrace : t.trace.firstSent = none := by
      rw [← ht]
      exact hs
    have hload : t.client.writeBuf.load 0 packet.length = packet := by
      rw [← ht]
      exact Memory.load_store _ 0 packet
    -- the packet that goes out first is this one
    have hsent : ∀ u, Writes t u →
        (u.log (.sent (t.client.writeBuf.load 0 packet.length))).trace.firstSent = some packet := by
      intro u hu
      rw [hload, World.trace_log, Trace.firstSent, firstSent_of_writes hu, htrace]
      rfl
    rw [wp_bind]
    apply wp_mono _ (wp_internalSendPacket_observed fuel packet.length .command t
      (fun _ _ hu hv => ?_) fun u hu => beginsWith_of_firstSent hpacket (hsent u hu))
    · intro rc u hu
      rw [wp_onSuccess]
      refine ⟨fun hrc => ?_, fun hrc => .of_none ?_ hrc⟩
      · obtain ⟨v, hv, rfl⟩ := hu.1 hrc
        apply wp_mono _ (kept_await hpacket fuel depth ?_ _ (hsent v hv))
        · intro rc t ht
          refine ⟨beginsWith_of_firstSent hpacket ht.1, fun _ => ?_⟩
          rw [ht.1]
          exact nofun
        · apply (allSteps hpacket).bind ((allSteps hpacket).look World.client)
          intro c
          split
          next => exact (allSteps hpacket).pure _
          next =>
            split
            next => exact (allSteps hpacket).pure _
            next =>
              apply (allSteps hpacket).bind ((allSteps hpacket).io (.ping false))
              intro _
              apply (allSteps hpacket).bind ((allSteps hpacket).plain (.countdown _ _))
              exact fun _ => (allSteps hpacket).pure _
      · rw [firstSent_of_writes (hu.2 hrc), htrace]
    · apply beginsWith_of_none
      rw [firstSent_of_writes (hu.trans hv), htrace]

theorem Begun.logged {rc : IotError} {s t : World} (h : Begun txBufLen options rc s) {e : Event}
    (htrace : t.trace = e :: s.trace) (he : e.isSent = false) : Begun txBufLen options rc t := by
  have heq : t.trace.firstSent = s.trace.firstSent := by
    rw [htrace]
    exact Trace.firstSent_of_isSent he _
  refine ⟨fun packet hpacket => h.1 packet ?_, fun hrc => ?_⟩
  · rw [← heq]
    exact hpacket
  · rw [heq]
    exact h.2 hrc

theorem wp_internalConnect (fuel depth : Nat) (params : ConnectParams) {s : World}
    (hs : s.trace.firstSent = none) (hsize : s.client.writeBufSize = txBufLen) :
    wp (discipline txBufLen { params with password := params.username })
      (internalConnect fuel (api depth) (some params))
      (fun rc t => Begun txBufLen { params with password := params.username } rc t) s := by
  simp only [internalConnect, applyConnectParams, wp_bind, wp_modifyClient, netConnect, wp_query,
    wp_emit, pure_eq, wp_ret]
  refine ⟨beginsWith_of_none hs, trivial, fun rc _ => ⟨beginsWith_of_none hs, ?_⟩⟩
  rw [wp_onSuccess]
  exact ⟨fun _ => wp_handshake fuel depth hs hsize rfl, fun hrc => .of_none hs hrc⟩

theorem wp_setClientState_begun {rc : IotError} (change : StateChange) (expected new : ClientState)
    {s : World} (h : Begun txBufLen options rc s) :
    wp (discipline txBufLen options) (setClientState change expected new)
      (fun _ t => Begun txBufLen options rc t) s := by
  rw [wp_setClientState]
  split
  next =>
    have hgranted : Begun txBufLen options rc (s.granted change expected new) := h.logged rfl rfl
    exact ⟨hgranted.1, hgranted⟩
  next =>
    have hrefused : Begun txBufLen options rc (s.refused change expected new) := h.logged rfl rfl
    exact ⟨hrefused.1, hrefused⟩

/-- A failed connect closes the transport, which sends nothing. -/
theorem wp_connecting (fuel depth : Nat) (params : ConnectParams) (change : StateChange) {s : World}
    (hs : s.trace.firstSent = none) (hsize : s.client.writeBufSize = txBufLen) :
    wp (discipline txBufLen { params with password := params.username })
      (framed .connecting do
        let rc ← internalConnect fuel (api depth) (some params)
        if rc ≠ .success then
          netDisconnect
          let _ ← netDestroy
          let _ ← setClientState change .connecting .disconnectedError
          return rc
        else
          let _ ← setClientState change .connecting .connectedIdle
          return rc)
      (fun rc t => Begun txBufLen { params with password := params.username } rc t) s := by
  rw [wp_framed]
  refine ⟨beginsWith_of_none hs, ?_⟩
  rw [wp_bind]
  apply wp_mono _ (wp_internalConnect fuel depth params (s := s.log (.enter .connecting)) hs hsize)
  intro rc t ht
  have hleave : ∀ u, Begun txBufLen { params with password := params.username } rc u →
      BeginsWith txBufLen { params with password := params.username }
      (u.log (.leave .connecting rc)) ∧
        Begun txBufLen { params with password := params.username } rc
          (u.log (.leave .connecting rc)) := by
    intro u hu
    have hlog : Begun _ _ rc (u.log (.leave .connecting rc)) := hu.logged rfl rfl
    exact ⟨hlog.1, hlog⟩
  split
  next =>
    simp only [wp_bind, wp_netDisconnect, wp_netDestroy, true_and]
    intro _ _
    -- closing the connection sends nothing
    have hdisconnected : Begun _ _ rc (t.log .netDisconnect) := ht.logged rfl rfl
    refine ⟨hdisconnected.1, fun destroyRc _ => ?_⟩
    have hdestroyed : Begun _ _ rc ((t.log .netDisconnect).log (.netDestroy destroyRc)) :=
      hdisconnected.logged rfl rfl
    refine ⟨hdestroyed.1, ?_⟩
    exact wp_mono (fun _ u hu => hleave u hu) (wp_setClientState_begun _ _ _ hdestroyed)
  next =>
    simp only [wp_bind]
    exact wp_mono (fun _ u hu => hleave u hu) (wp_setClientState_begun _ _ _ ht)

theorem wp_connectFrom (fuel depth : Nat) (params : ConnectParams) (clientState : ClientState)
    {s : World} (hs : s.trace.firstSent = none) (hsize : s.client.writeBufSize = txBufLen) :
    wp (discipline txBufLen { params with password := params.username })
      (connectFrom fuel (api depth) (some params) clientState)
      (fun rc t => Begun txBufLen { params with password := params.username } rc t) s := by
  simp only [connectFrom, wp_bind, wp_setClientState]
  split
  next => exact ⟨beginsWith_of_none hs, wp_connecting (s := s.granted _ _ _) _ _ _ _ hs hsize⟩
  next => exact ⟨beginsWith_of_none hs, wp_connecting (s := s.refused _ _ _) _ _ _ _ hs hsize⟩

theorem wp_api (fuel : Nat) (params : ConnectParams) {s : World} (hs : s.trace.firstSent = none)
    (hsize : s.client.writeBufSize = txBufLen)
    (hvalid : s.client.clientState.isValidForConnect = true) :
    wp (discipline txBufLen { params with password := params.username })
      (api fuel (.connect (some params)))
      (fun rc t => Begun txBufLen { params with password := params.username } rc t) s := by
  cases fuel with
  | zero => trivial
  | succ fuel =>
      change wp _
        (framed (.call (.connect (some params))) (connect fuel (api fuel) (some params))) _ s
      rw [wp_framed]
      refine ⟨beginsWith_of_none hs, ?_⟩
      simp only [connect, wp_bind, wp_getClientState, World.client_log, hvalid, if_true]
      refine ⟨beginsWith_of_none hs, ?_⟩
      apply wp_mono _ (wp_connectFrom fuel fuel params s.client.clientState
        (s := s.log (.enter (.call (.connect (some params))))) hs hsize)
      intro rc t ht
      have hlog : Begun _ _ rc (t.log (.leave (.call (.connect (some params))) rc)) :=
        ht.logged rfl rfl
      exact ⟨hlog.1, hlog⟩

end Parameters

/-! ## What the packet says -/

namespace ConnectParams

/-- What is sent for the options says what the parameters say. -/
theorem sentContent_eq_iff (params : ConnectParams) :
    { params with password := params.username }.sentContent = params.content ↔
      params.IsCarried := by
  constructor
  · intro h
    exact ⟨congrArg ConnectContent.password h,
      params.map_mod_four.mp (congrArg ConnectContent.will h)⟩
  · intro ⟨hpassword, hwill⟩
    have hwill' := params.map_mod_four.mpr hwill
    change ConnectContent.mk _ _ _ _ _ _ = ConnectContent.mk _ _ _ _ _ _
    rw [ConnectContent.mk.injEq]
    exact ⟨rfl, rfl, rfl, hwill', rfl, hpassword⟩

end ConnectParams

/-- The packet that a fresh client begins a connect with says what the caller's
parameters say, if the user name stands in for the password. -/
theorem Client.sendsGiven_iff_isCarried (c : Client) (ip : InitParams) (params : ConnectParams)
    (haccepts : (c.initialized ip).Accepts params) :
    (c.initialized ip).SendsGiven params ↔ params.IsCarried := by
  have hwp :=
    fun fuel => Parameters.wp_api (s := ⟨c.initialized ip, [], []⟩) fuel params rfl rfl rfl
  constructor
  · intro hsends
    obtain ⟨fuel, w, hreturns⟩ := haccepts
    have hbegun := wp_returns (hwp fuel) hreturns
    obtain ⟨packet, hpacket⟩ := Option.ne_none_iff_exists'.mp (hbegun.2 rfl)
    have hdecode := decodeConnect_serializeConnect (hbegun.1 packet hpacket)
    rw [hsends fuel _ w hreturns packet hpacket] at hdecode
    exact params.sentContent_eq_iff.mp (Option.some.inj hdecode).symm
  · intro hcarried fuel p w hsteps packet hpacket
    have hbegins := invariant_steps (I := Parameters.BeginsWith awsIotMqttTxBufLen
      { params with password := params.username }) (fun _ _ _ h => h) (hwp fuel)
      (Parameters.beginsWith_of_none rfl) hsteps
    rw [decodeConnect_serializeConnect (hbegins packet hpacket),
      params.sentContent_eq_iff.mpr hcarried]

/-- Without user name and password nothing is mistaken. -/
theorem sendsGiven_connectParamsInitializer : freshClient.SendsGiven connectParamsInitializer :=
  (blankClient.sendsGiven_iff_isCarried sampleInitParams connectParamsInitializer
    ⟨20, _, returns_perform (fun _ _ _ _ => trivial) (keepsTo_true _ _ _) perform_connectCall⟩).mpr
    ⟨rfl, nofun⟩

/-- A user `u` whose password is `p`. -/
def loginParams : ConnectParams :=
  { connectParamsInitializer with
    username := some [117], usernameLen := 1, password := some [112], passwordLen := 1 }

theorem perform_loginParams :
    (freshWorld.perform 20 (.connect (some loginParams)) connackPacket []).1 = some .success ∧
    ((freshWorld.perform 20 (.connect (some loginParams)) connackPacket []).2.2.trace.firstSent.bind
      decodeConnect).map ConnectContent.password = some (some [117]) := by
  decide +kernel

/-- The user `u` logs in with the password `u`. -/
theorem not_sendsGiven_loginParams :
    freshClient.Accepts loginParams ∧ ¬ freshClient.SendsGiven loginParams := by
  have hreturns : Returns anything _ _ _ _ :=
    returns_perform (fun _ _ _ _ => trivial) (keepsTo_true _ _ _) perform_loginParams.1
  refine ⟨⟨20, _, hreturns⟩, fun hsends => ?_⟩
  obtain ⟨content, hcontent, hpassword⟩ := Option.map_eq_some_iff.mp perform_loginParams.2
  obtain ⟨packet, hpacket, hdecode⟩ := Option.bind_eq_some_iff.mp hcontent
  rw [hsends 20 _ _ hreturns packet hpacket] at hdecode
  cases hdecode
  revert hpassword
  decide

end MqttClient
