import MqttClient.Client.Operations
import MqttClient.Client.Script

/-! # Runs of one thread

A single-threaded application makes one call after the other. What the
environment may answer in a run is a policy; the calls that the application
makes, at rest and in its handlers, are answers of the environment as well.
-/

namespace MqttClient

open Effect Program

/-- What the environment may answer in which world. -/
abbrev Policy := (q : Query) → World → Answer q → Prop

/-- The application may make this call now. -/
def Policy.allowsCall (allow : Policy) (w : World) (c : Call) : Prop :=
  allow .application w (some c : Option Call)

/-- The worlds reached by calls from an initialized client, when no call is in
progress. -/
inductive AtRest (allow : Policy) : World → Prop where
  | init (c : Client) (params : InitParams) : AtRest allow ⟨c.initialized params, [], []⟩
  | call {w w' : World} {c : Call} {fuel : Nat} {rc : IotError} (hrest : AtRest allow w)
      (hallow : allow.allowsCall w c) (hret : Returns allow (api fuel c) w rc w') :
      AtRest allow w'

/-- The environment may answer anything. -/
def anything : Policy := fun _ _ _ => True

theorem returns_framed {allow : Policy} {frame : Frame} {body : M IotError}
    {rc : IotError} {s t : World} :
    Returns allow (framed frame body) s rc t ↔
      ∃ u, Returns allow body (s.log (.enter frame)) rc u ∧ t = u.log (.leave frame rc) := by
  simp only [framed, emit, returns_bind, returns_modify, pure_eq, returns_ret]
  constructor
  · rintro ⟨_, _, rfl, rc', u, hbody, _, _, rfl, rfl, rfl⟩
    exact ⟨u, hbody, rfl⟩
  · rintro ⟨u, hbody, rfl⟩
    exact ⟨(), _, rfl, rc, u, hbody, (), _, rfl, rfl, rfl⟩

/-! ## Scripted runs are runs -/

section Scripted

variable {allow : Policy} {ok : (q : Query) → World → Answer q → Bool} {w : World} {c : Call}
  {fuel : Nat} {arrivals : List Arrival} {calls : List (Option Call)}

theorem returns_perform {rc : IotError} (hok : ∀ q s a, ok q s a = true → allow q s a)
    (hkeeps : w.keepsTo ok fuel c arrivals calls = true)
    (h : (w.perform fuel c arrivals calls).1 = some rc) :
    Returns allow (api fuel c) w rc (w.perform fuel c arrivals calls).2.2 :=
  returns_run hok hkeeps h

theorem steps_underway (n : Nat) (hok : ∀ q s a, ok q s a = true → allow q s a)
    (hkeeps : w.keepsTo ok fuel c arrivals calls = true) :
    Steps allow (api fuel c, w) ((w.underway fuel c arrivals calls n).1,
      (w.underway fuel c arrivals calls n).2) :=
  steps_advance hok n hkeeps

theorem asks_underway {n : Nat} {q : Query} (hok : ∀ q s a, ok q s a = true → allow q s a)
    (hkeeps : w.keepsTo ok fuel c arrivals calls = true)
    (h : (w.underway fuel c arrivals calls n).1.question = some q) :
    ∃ k, Steps allow (api fuel c, w) (.ask q k, (w.underway fuel c arrivals calls n).2) := by
  obtain ⟨k, hk⟩ := eq_ask_of_question h
  refine ⟨k, ?_⟩
  rw [← hk]
  exact steps_underway n hok hkeeps

theorem asks_underway_anything {n : Nat} {q : Query}
    (h : (w.underway fuel c arrivals calls n).1.question = some q) :
    ∃ k, Steps anything (api fuel c, w) (.ask q k, (w.underway fuel c arrivals calls n).2) :=
  asks_underway (fun _ _ _ _ => trivial) (keepsTo_true _ _ _) h

theorem AtRest.perform {rc : IotError} (hrest : AtRest anything w)
    (h : (w.perform fuel c arrivals calls).1 = some rc) :
    AtRest anything (w.perform fuel c arrivals calls).2.2 :=
  hrest.call trivial (returns_perform (fun _ _ _ _ => trivial) (keepsTo_true _ _ _) h)

/-- A policy that says nothing about calm questions. -/
def Policy.AllowsCalm (allow : Policy) : Prop := ∀ q w a, q.isCalm = true → allow q w a

theorem AtRest.perform_calm {rc : IotError} (hcalm : allow.AllowsCalm) (hrest : AtRest allow w)
    (hallow : allow.allowsCall w c) (hkeeps : w.isCalm fuel c arrivals = true)
    (h : (w.perform fuel c arrivals []).1 = some rc) :
    AtRest allow (w.perform fuel c arrivals []).2.2 :=
  hrest.call hallow (returns_perform hcalm hkeeps h)

theorem AtRest.connected (hcalm : allow.AllowsCalm)
    (hallow : allow.allowsCall freshWorld connectCall) :
    AtRest allow connectedWorld :=
  (AtRest.init blankClient sampleInitParams).perform_calm hcalm hallow isCalm_connectCall
    perform_connectCall

theorem AtRest.subscribed (hcalm : allow.AllowsCalm)
    (hconnect : allow.allowsCall freshWorld connectCall)
    (hsubscribe : allow.allowsCall connectedWorld (subscribeCall filterA)) :
    AtRest allow subscribedWorld :=
  (AtRest.connected hcalm hconnect).perform_calm hcalm hsubscribe isCalm_subscribeCall
    perform_subscribeCall

end Scripted

theorem atRest_connectedWorld : AtRest anything connectedWorld :=
  (AtRest.init blankClient sampleInitParams).perform perform_connectCall

theorem atRest_subscribedWorld : AtRest anything subscribedWorld :=
  atRest_connectedWorld.perform perform_subscribeCall

/-- The application connects, subscribes and unsubscribes, and its handlers
make no calls. -/
def subscribesAtRest : Policy := fun q =>
  match q with
  | .application => fun w (next : Option Call) =>
      match next with
      | none => True
      | some (.connect _) | some (.subscribe _ _ _ _ _) | some (.unsubscribe _ _) => w.stack = []
      | some _ => False
  | _ => fun _ _ => True

theorem subscribesAtRest_allowsCalm : subscribesAtRest.AllowsCalm := by
  intro q w a hq
  cases q with
  | application => cases hq
  | _ => trivial

/-- A discipline for single-threaded runs in which fuel may run out. -/
def solo (pre : Query → World → Prop) (allow : Policy) (guar : World → World → Prop) :
    Discipline World Answer where
  pre := pre
  allow := allow
  may _ _ := True
  guar := guar
  rely s t := t = s
  halts _ := True

section Solo

variable {pre : Query → World → Prop} {allow : Policy} {guar : World → World → Prop}

instance : (solo pre allow guar).Sequential where
  may_all _ _ := trivial
  rely_iff _ _ := Iff.rfl

@[simp] theorem solo_pre (q : Query) (s : World) : (solo pre allow guar).pre q s = pre q s := rfl

@[simp] theorem solo_allow (q : Query) (s : World) (a : Answer q) :
    (solo pre allow guar).allow q s a = allow q s a := rfl

@[simp] theorem solo_guar (s t : World) : (solo pre allow guar).guar s t = guar s t := rfl

/-- A property that every call keeps holds at rest. -/
theorem AtRest.of_wp {I : World → Prop} {w : World}
    (hinit : ∀ c params, I ⟨Client.initialized c params, [], []⟩)
    (hcall : ∀ fuel c s, I s → allow.allowsCall s c →
      wp (solo pre allow guar) (api fuel c) (fun _ t => I t) s)
    (h : AtRest allow w) : I w := by
  induction h with
  | init c params => exact hinit c params
  | call _ hallow hret ih => exact wp_returns (hcall _ _ _ ih hallow) hret

/-! ## The rules for the primitive operations -/

theorem wp_emit (e : Event) (Φ : Unit → World → Prop) (s : World) :
    wp (solo pre allow guar) (emit e) Φ s ↔ guar s (s.log e) ∧ Φ () (s.log e) := by
  simp [emit, wp_modify]

theorem wp_getClient (Φ : Client → World → Prop) (s : World) :
    wp (solo pre allow guar) getClient Φ s ↔ guar s s ∧ Φ s.client s := by
  simp [getClient, wp_atomically]

theorem wp_modifyClient (f : Client → Client) (Φ : Unit → World → Prop) (s : World) :
    wp (solo pre allow guar) (modifyClient f) Φ s ↔
      guar s (s.onClient f) ∧ Φ () (s.onClient f) := by
  simp [modifyClient, wp_modify]

theorem wp_getClientState (Φ : ClientState → World → Prop) (s : World) :
    wp (solo pre allow guar) getClientState Φ s ↔ guar s s ∧ Φ s.client.clientState s := by
  simp [getClientState, wp_atomically]

theorem wp_isClientConnected (Φ : Bool → World → Prop) (s : World) :
    wp (solo pre allow guar) isClientConnected Φ s ↔ guar s s ∧ Φ s.isClientConnected s := by
  simp [isClientConnected, wp_atomically]

theorem wp_setClientState (change : StateChange) (expected new : ClientState)
    (Φ : IotError → World → Prop) (s : World) :
    wp (solo pre allow guar) (setClientState change expected new) Φ s ↔
      if s.client.clientState = expected then
        guar s (s.granted change expected new) ∧ Φ .success (s.granted change expected new)
      else guar s (s.refused change expected new) ∧
        Φ .mqttUnexpectedClientStateError (s.refused change expected new) := by
  simp only [setClientState, wp_atomically, solo_guar]
  split <;> rfl

theorem wp_putClientState (new : ClientState) (Φ : Unit → World → Prop) (s : World) :
    wp (solo pre allow guar) (putClientState new) Φ s ↔
      guar s (s.put new) ∧ Φ () (s.put new) := by
  simp [putClientState, wp_modify]

theorem wp_netConnect (Φ : IotError → World → Prop) (s : World) :
    wp (solo pre allow guar) netConnect Φ s ↔
      pre .netConnect s ∧ ∀ rc : IotError, allow .netConnect s rc →
        guar s (s.log (.netConnect rc)) ∧ Φ rc (s.log (.netConnect rc)) := by
  simp [netConnect, Answer, wp_bind, wp_query, wp_emit, wp_ret]

theorem wp_netDisconnect (Φ : Unit → World → Prop) (s : World) :
    wp (solo pre allow guar) netDisconnect Φ s ↔
      pre .netDisconnect s ∧ ∀ rc : IotError, allow .netDisconnect s rc →
        guar s (s.log .netDisconnect) ∧ Φ () (s.log .netDisconnect) := by
  simp [netDisconnect, Answer, wp_bind, wp_query, wp_emit]

theorem wp_netDestroy (Φ : IotError → World → Prop) (s : World) :
    wp (solo pre allow guar) netDestroy Φ s ↔
      pre .netDestroy s ∧ ∀ rc : IotError, allow .netDestroy s rc →
        guar s (s.log (.netDestroy rc)) ∧ Φ rc (s.log (.netDestroy rc)) := by
  simp [netDestroy, Answer, wp_bind, wp_query, wp_emit, wp_ret]

theorem wp_hasTimerExpired (timer : TimerName) (Φ : Bool → World → Prop) (s : World) :
    wp (solo pre allow guar) (hasTimerExpired timer) Φ s ↔
      pre (.hasTimerExpired timer) s ∧ ∀ b : Bool, allow (.hasTimerExpired timer) s b → Φ b s := by
  simp [hasTimerExpired, Answer, wp_query]

theorem wp_onSuccess (rc : IotError) (next : M IotError) (Φ : IotError → World → Prop)
    (s : World) :
    wp (solo pre allow guar) (onSuccess rc next) Φ s ↔
      (rc = .success → wp (solo pre allow guar) next Φ s) ∧ (rc ≠ .success → Φ rc s) := by
  unfold onSuccess
  by_cases h : rc = .success <;> simp [h, wp_ret]

theorem wp_framed (frame : Frame) (body : M IotError) (Φ : IotError → World → Prop) (s : World) :
    wp (solo pre allow guar) (framed frame body) Φ s ↔
      guar s (s.log (.enter frame)) ∧
        wp (solo pre allow guar) body (fun rc t => guar t (t.log (.leave frame rc)) ∧
          Φ rc (t.log (.leave frame rc))) (s.log (.enter frame)) := by
  simp [framed, wp_bind, wp_emit, wp_ret]

theorem wp_serialized {make : Client → Except IotError (List UInt8)} {next : Nat → M IotError}
    {Φ : IotError → World → Prop} {s : World} (hguar : guar s s)
    (herror : ∀ rc, make s.client = .error rc → Φ rc s)
    (hok : ∀ packet, make s.client = .ok packet →
      let t := s.onClient fun c => { c with writeBuf := c.writeBuf.store 0 packet }
      guar s t ∧ wp (solo pre allow guar) (next packet.length) Φ t) :
    wp (solo pre allow guar) (serialized make next) Φ s := by
  simp only [serialized, wp_bind, wp_getClient]
  refine ⟨hguar, ?_⟩
  split
  next rc hmake => exact herror rc hmake
  next packet hmake =>
    simp only [wp_bind, wp_modifyClient]
    exact hok packet hmake

/-- The rule for programs that only read, write and keep time. -/
theorem wp_quiet {α : Type} {p : M α} {Φ : α → World → Prop} {s : World} (h : IsQuiet p)
    (hpre : ∀ q t, Quiet s t → q.isIo → pre q t) (hguar : ∀ t u, Quiet s t → Quiet t u → guar t u)
    (hpost : ∀ a t, Quiet s t → Φ a t) : wp (solo pre allow guar) p Φ s := by
  refine wp_mono hpost (h.wp hpre ?_ ?_ (fun _ _ => trivial) (.refl s))
  · exact fun t u ht hu _ => ⟨hguar t u ht hu, ht.trans hu⟩
  · rintro t u ht rfl
    exact ht

/-- The rule for application code: it makes calls, and each keeps `I`, until the
environment lets it return. -/
theorem wp_application {call : Call → M IotError} {I : World → Prop} {s : World} (fuel : Nat)
    (hpre : ∀ t, I t → pre .application t)
    (hcall : ∀ c t, I t → allow.allowsCall t c →
      wp (solo pre allow guar) (call c) (fun _ u => I u) t) (hI : I s) :
    wp (solo pre allow guar) (application fuel call)
      (fun _ t => I t ∧ allow .application t (none : Option Call)) s := by
  refine wp_loop (I := fun _ t => I t) (fun _ _ _ => trivial) (fun _ t ht => ?_) fuel () s hI
  simp only [wp_bind, wp_query, solo_pre, solo_allow]
  refine ⟨hpre t ht, fun next hnext => ?_⟩
  match next, hnext with
  | none, hnext => exact ⟨ht, hnext⟩
  | some c, hnext =>
      simp only [wp_bind]
      exact wp_mono (fun _ _ hu => hu) (hcall c t ht hnext)

/-- The rule for a message handler: `I` holds around it, and `J` while it runs. -/
theorem wp_callHandler {call : Call → M IotError} {I : World → Prop}
    {J : HandlerName → World → Prop}
    {s : World} (fuel : Nat) (h : MessageHandler) (topicOff : Nat) (topicNameLen : UInt16)
    (hpre : ∀ name t, J name t → pre .application t)
    (henter : ∀ name topic payload data t, I t →
      let u := t.log (.delivered name topic payload data)
      guar t u ∧ guar u (u.log (.enter (.handler name))) ∧
        J name (u.log (.enter (.handler name))))
    (hcall : ∀ name c t, J name t → allow.allowsCall t c →
      wp (solo pre allow guar) (call c) (fun _ u => J name u) t)
    (hleave : ∀ name t, J name t → allow .application t (none : Option Call) →
      guar t (t.log (.leave (.handler name) .success)) ∧
        I (t.log (.leave (.handler name) .success))) (hI : I s) :
    wp (solo pre allow guar) (callHandler fuel call h topicOff topicNameLen)
      (fun _ t => I t) s := by
  unfold callHandler
  cases h.applicationHandler with
  | none => exact hI
  | some name =>
      simp only [wp_bind, wp_modify, solo_guar, wp_framed, pure_eq, wp_ret]
      obtain ⟨hdelivered, hentered, hJ⟩ := henter name _ _ _ s hI
      refine ⟨hdelivered, hentered, ?_⟩
      exact wp_mono (fun _ t ht => hleave name t ht.1 ht.2) (wp_application fuel (hpre name)
        (hcall name) hJ)

/-- The rule for the loop over the message handlers. -/
theorem wp_deliverMessageLoop {call : Call → M IotError} {I : World → Prop} {s : World}
    (fuel topicOff : Nat) (topicNameLen : UInt16) (remaining : Nat)
    (hguar : ∀ t, I t → guar t t)
    (hhandler : ∀ h t, I t → wp (solo pre allow guar)
      (callHandler fuel call h topicOff topicNameLen) (fun _ u => I u) t) (hI : I s) :
    wp (solo pre allow guar) (deliverMessageLoop fuel call topicOff topicNameLen remaining)
      (fun _ t => I t) s := by
  induction remaining generalizing s with
  | zero => exact hI
  | succ remaining ih =>
      simp only [deliverMessageLoop, wp_bind, wp_getClient]
      refine ⟨hguar s hI, ?_⟩
      split
      next =>
        simp only [wp_bind]
        exact wp_mono (fun _ t ht => ih ht) (hhandler _ s hI)
      next => exact ih hI

/-- The rule for an operation that claims the client: alone, it gets its claim. -/
theorem wp_exclusively {inProgress : ClientState} {body : M IotError}
    {onRefused : ClientState → IotError → M IotError} {Φ : IotError → World → Prop} {s : World}
    (hguar : guar s s) (hdisconnected : Φ .networkDisconnectedError s)
    (hbusy : Φ .mqttClientNotIdleError s)
    (hclaim : guar s (s.granted .claim s.client.clientState inProgress))
    (hbody : s.isClientConnected = true → wp (solo pre allow guar) body (fun bodyRc t =>
      wp (solo pre allow guar) (setClientState .release inProgress s.client.clientState)
        (fun rc u => Φ (if bodyRc = .success ∧ rc ≠ .success then rc else bodyRc) u) t)
      (s.granted .claim s.client.clientState inProgress)) :
    wp (solo pre allow guar) (exclusively inProgress body onRefused) Φ s := by
  simp only [exclusively, wp_bind, wp_isClientConnected]
  refine ⟨hguar, ?_⟩
  split
  next => exact hdisconnected
  next hconnected =>
    simp only [wp_bind, wp_getClientState]
    refine ⟨hguar, ?_⟩
    split
    next => exact hbusy
    next =>
      rw [wp_bind, wp_setClientState, if_pos rfl, if_neg (by simp)]
      simp only [wp_bind, pure_eq, wp_ret]
      exact ⟨hclaim, hbody (by simpa using hconnected)⟩

end Solo

end MqttClient
