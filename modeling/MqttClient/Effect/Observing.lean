import MqttClient.Effect.Logic

/-! # Programs whose exchanges are observed

What a program has been told by its environment can matter although the program does
not keep it. An observer keeps an account of the questions and answers beside the state;
the observed program runs as the program does.
-/

namespace Effect

namespace Program

variable {σ Q γ : Type} {A : Q → Type} {α β : Type}

/-- The program on states with an account, in which `note q a` enters the exchange of
`q` and `a`. -/
def observe (note : (q : Q) → A q → γ → γ) : Program σ A α → Program (σ × γ) A α
  | .ret a => .ret a
  | .act f k => .act (fun x => (f x.1, x.2)) fun x => (k x.1).observe note
  | .ask q k => .ask q fun a => .act (fun x => (x.1, note q a x.2)) fun _ => (k a).observe note
  | .stop => .stop

section Observe

variable {note : (q : Q) → A q → γ → γ}

@[simp] theorem observe_ret (a : α) : (Program.ret a : Program σ A α).observe note = .ret a := rfl

theorem observe_bind (p : Program σ A α) (g : α → Program σ A β) :
    (p >>= g).observe note = p.observe note >>= fun a => (g a).observe note := by
  induction p with
  | ret a => rfl
  | act f k ih =>
      exact congrArg (Program.act _) (funext fun x => ih x.1)
  | ask q k ih =>
      exact congrArg (Program.ask q)
        (funext fun a => congrArg (Program.act _) (funext fun _ => ih a))
  | stop => rfl

/-! ## Observing changes nothing -/

variable {allow : (q : Q) → σ → A q → Prop} {x y : σ × γ} {a : α}

/-- An observed run is a run. -/
theorem returns_of_observe {p : Program σ A α}
    (h : Returns (fun q x => allow q x.1) (p.observe note) x a y) : Returns allow p x.1 a y.1 := by
  induction p generalizing x with
  | ret b =>
      obtain ⟨rfl, rfl⟩ := returns_ret.mp h
      exact .refl
  | act f k ih => exact returns_act.mpr (ih _ (returns_act.mp h))
  | ask q k ih =>
      obtain ⟨b, hallow, hrest⟩ := returns_ask.mp h
      have hk := ih b (x := (x.1, note q b x.2)) (returns_act.mp hrest)
      exact returns_ask.mpr ⟨b, hallow, hk⟩
  | stop => exact absurd h not_returns_stop

/-- Every run can be observed. -/
theorem exists_returns_observe {p : Program σ A α} {s t : σ} (h : Returns allow p s a t) (g : γ) :
    ∃ g', Returns (fun q x => allow q x.1) (p.observe note) (s, g) a (t, g') := by
  induction p generalizing s g with
  | ret b =>
      obtain ⟨rfl, rfl⟩ := returns_ret.mp h
      exact ⟨g, .refl⟩
  | act f k ih =>
      obtain ⟨g', hk⟩ := ih _ (returns_act.mp h) g
      exact ⟨g', returns_act.mpr hk⟩
  | ask q k ih =>
      obtain ⟨b, hallow, hrest⟩ := returns_ask.mp h
      obtain ⟨g', hk⟩ := ih b hrest (note q b g)
      exact ⟨g', returns_ask.mpr ⟨b, hallow, returns_act.mpr hk⟩⟩
  | stop => exact absurd h not_returns_stop

/-! ## Observed runs, part by part -/

section Runs

variable {observes : (q : Q) → σ × γ → A q → Prop} {z : σ × γ}

theorem returns_observe_bind {p : Program σ A α} {g : α → Program σ A β} {b : β} :
    Returns observes ((p >>= g).observe note) x b z ↔
      ∃ a y, Returns observes (p.observe note) x a y ∧
        Returns observes ((g a).observe note) y b z := by
  rw [observe_bind, returns_bind]

theorem returns_observe_atomically {v : σ → α} {f : σ → σ} :
    Returns observes ((atomically v f).observe note) x (v x.1) (f x.1, x.2) := by
  rw [atomically, observe, returns_act]
  exact .refl

/-- A question is answered, and the exchange is entered in the account. -/
theorem returns_observe_query {q : Q} {b : A q} (h : observes q x b) :
    Returns observes ((query q).observe note) x b (x.1, note q b x.2) := by
  rw [query, observe, returns_ask]
  exact ⟨b, h, returns_act.mpr .refl⟩

end Runs

end Observe

/-! ## Observed programs alone -/

/-- The discipline of all runs with these answers, of which nothing is asked. -/
def answered (allow : (q : Q) → σ → A q → Prop) : Discipline σ A where
  pre _ _ := True
  allow := allow
  may _ _ := True
  guar _ _ := True
  rely s t := t = s
  halts _ := True

instance (allow : (q : Q) → σ → A q → Prop) : (answered allow).Sequential :=
  ⟨fun _ _ => trivial, fun _ _ => Iff.rfl⟩

section Rules

variable {note : (q : Q) → A q → γ → γ} {allow : (q : Q) → σ × γ → A q → Prop}
  {Φ : α → σ × γ → Prop} {x : σ × γ}

theorem wp_observe_bind {p : Program σ A β} {g : β → Program σ A α} :
    wp (answered allow) ((p >>= g).observe note) Φ x ↔
      wp (answered allow) (p.observe note)
        (fun b y => wp (answered allow) ((g b).observe note) Φ y) x := by
  rw [observe_bind, wp_bind]

theorem wp_observe_atomically {v : σ → α} {f : σ → σ} :
    wp (answered allow) ((atomically v f).observe note) Φ x ↔ Φ (v x.1) (f x.1, x.2) := by
  rw [atomically, observe, wp_act_sequential]
  exact and_iff_right trivial

theorem wp_observe_query {q : Q} {Φ : A q → σ × γ → Prop} :
    wp (answered allow) ((query q).observe note) Φ x ↔
      ∀ a, allow q x a → Φ a (x.1, note q a x.2) := by
  rw [query, observe, wp_ask_sequential]
  constructor
  · intro h a ha
    exact ((wp_act_sequential _ _ _ _).mp (h.2 a ha)).2
  · intro h
    refine ⟨trivial, fun a ha => ?_⟩
    exact (wp_act_sequential _ _ _ _).mpr ⟨trivial, h a ha⟩

theorem wp_observe_step {v : σ → β} {f : σ → σ} {g : β → Program σ A α}
    (h : wp (answered allow) ((g (v x.1)).observe note) Φ (f x.1, x.2)) :
    wp (answered allow) ((atomically v f >>= g).observe note) Φ x :=
  wp_observe_bind.mpr (wp_observe_atomically.mpr h)

theorem wp_observe_exchange {q : Q} {g : A q → Program σ A α}
    (h : ∀ a, allow q x a → wp (answered allow) ((g a).observe note) Φ (x.1, note q a x.2)) :
    wp (answered allow) ((query q >>= g).observe note) Φ x :=
  wp_observe_bind.mpr (wp_observe_query.mpr h)

/-- The loop rule for observed programs. -/
theorem wp_observe_loop {body : β → Program σ A (β ⊕ α)} {I : β → σ × γ → Prop}
    (hbody : ∀ b y, I b y →
      wp (answered allow) ((body b).observe note) (fun r z => Sum.elim (I · z) (Φ · z) r) y)
    (fuel : Nat) (b : β) (hI : I b x) :
    wp (answered allow) ((loop body fuel b).observe note) Φ x := by
  induction fuel generalizing b x with
  | zero => trivial
  | succ fuel ih =>
      rw [loop, wp_observe_bind]
      apply wp_mono _ (hbody b x hI)
      intro r z hz
      cases r with
      | inl b' => exact ih b' hz
      | inr a => exact hz

/-- The rule for going through a list with an invariant. -/
theorem wp_observe_forEach {body : β → Program σ A Unit} {I : σ × γ → Prop}
    (hbody : ∀ b y, I y → wp (answered allow) ((body b).observe note) (fun _ z => I z) y)
    (bs : List β) (hI : I x) :
    wp (answered allow) ((forEach body bs).observe note) (fun _ z => I z) x := by
  induction bs generalizing x with
  | nil => exact hI
  | cons b bs ih =>
      rw [forEach, wp_observe_bind]
      apply wp_mono _ (hbody b x hI)
      exact fun _ z hz => ih hz

end Rules

end Program

end Effect
