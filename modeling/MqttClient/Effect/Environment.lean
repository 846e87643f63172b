import MqttClient.Effect.Ending

/-! # Environments with states of their own

What an environment answers can depend on what it has been asked before. An environment is
then a transition system whose labels are the questions with their answers. Where each of its
transitions is one of another environment, so is every run of a program in it, and what is
proved of the runs in the other one holds of its own.
-/

namespace Effect

variable {σ Q ε : Type} {A : Q → Type} {α β : Type}

/-- Asked `q` in the state `e`, the environment may answer `a` and go on in the state `e'`. -/
abbrev Environment (ε : Type) {Q : Type} (A : Q → Type) := ε → (q : Q) → A q → ε → Prop

/-- Each transition of the first environment is one of the second. -/
def Environment.Refines (E F : Environment ε A) : Prop := ∀ e q a e', E e q a e' → F e q a e'

namespace Program

/-- One step of a run in an environment. -/
inductive StepIn (E : Environment ε A) :
    Program σ A α × ε × σ → Program σ A α × ε × σ → Prop where
  | act (f : σ → σ) (k : σ → Program σ A α) (e : ε) (s : σ) :
      StepIn E (.act f k, e, s) (k s, e, f s)
  | ask {q : Q} {k : A q → Program σ A α} {e e' : ε} {s : σ} {a : A q} (h : E e q a e') :
      StepIn E (.ask q k, e, s) (k a, e', s)

/-- Finitely many steps of a run in an environment. -/
abbrev StepsIn (E : Environment ε A) :
    Program σ A α × ε × σ → Program σ A α × ε × σ → Prop :=
  Relation.ReflTransGen (StepIn E)

/-- In the environment the program can return `a`. -/
def ReturnsIn (E : Environment ε A) (p : Program σ A α) (e : ε) (s : σ) (a : α) (e' : ε)
    (s' : σ) : Prop :=
  StepsIn E (p, e, s) (.ret a, e', s')

/-! ## Refinement -/

section Refinement

variable {E F : Environment ε A} {c c' : Program σ A α × ε × σ}

theorem StepIn.refine (hrefines : E.Refines F) (h : StepIn E c c') : StepIn F c c' := by
  cases h with
  | act f k e s => exact .act f k e s
  | ask h => exact .ask (hrefines _ _ _ _ h)

/-- A run in an environment is a run in every environment that it refines. -/
theorem StepsIn.refine (hrefines : E.Refines F) (h : StepsIn E c c') : StepsIn F c c' :=
  Relation.ReflTransGen.mono (fun _ _ h => StepIn.refine hrefines h) _ _ h

/-- The run as the program sees it, the states of the environment left out. -/
theorem StepsIn.steps {allow : (q : Q) → σ → A q → Prop}
    (hallow : ∀ e q a e' s, E e q a e' → allow q s a) (h : StepsIn E c c') :
    Steps allow (c.1, c.2.2) (c'.1, c'.2.2) := by
  induction h with
  | refl => exact .refl
  | tail _ hstep ih =>
      cases hstep with
      | act f k e s => exact ih.tail (.act f k s)
      | ask h => exact ih.tail (.ask (hallow _ _ _ _ _ h))

end Refinement

/-! ## Reasoning about one environment -/

/-- Whatever the environment answers, where the program returns `Φ` holds. -/
def wpIn (E : Environment ε A) : Program σ A α → (α → ε → σ → Prop) → ε → σ → Prop
  | .ret a, Φ, e, s => Φ a e s
  | .act f k, Φ, e, s => wpIn E (k s) Φ e (f s)
  | .ask q k, Φ, e, s => ∀ a e', E e q a e' → wpIn E (k a) Φ e' s
  | .stop, _, _, _ => True

section Rules

variable {E : Environment ε A} {p : Program σ A α} {Φ Ψ : α → ε → σ → Prop} {e e' : ε} {s s' : σ}

@[simp] theorem wpIn_ret (a : α) : wpIn E (.ret a) Φ e s ↔ Φ a e s := Iff.rfl

@[simp] theorem wpIn_modify {f : σ → σ} {Φ : Unit → ε → σ → Prop} :
    wpIn E (modify f) Φ e s ↔ Φ () e (f s) := Iff.rfl

@[simp] theorem wpIn_atomically {v : σ → α} {f : σ → σ} :
    wpIn E (atomically v f) Φ e s ↔ Φ (v s) e (f s) := Iff.rfl

@[simp] theorem wpIn_query {q : Q} {Φ : A q → ε → σ → Prop} :
    wpIn E (query q) Φ e s ↔ ∀ a e', E e q a e' → Φ a e' s := Iff.rfl

theorem wpIn_mono (hmono : ∀ a e' s', Φ a e' s' → Ψ a e' s') (h : wpIn E p Φ e s) :
    wpIn E p Ψ e s := by
  induction p generalizing e s with
  | ret a => exact hmono a e s h
  | act f k ih => exact ih s h
  | ask q k ih => exact fun a e' hanswer => ih a (h a e' hanswer)
  | stop => trivial

@[simp] theorem wpIn_bind {g : α → Program σ A β} {Φ : β → ε → σ → Prop} :
    wpIn E (p >>= g) Φ e s ↔ wpIn E p (fun a e' s' => wpIn E (g a) Φ e' s') e s := by
  induction p generalizing e s with
  | ret a => exact Iff.rfl
  | act f k ih => exact ih s
  | ask q k ih => exact forall_congr' fun a => forall_congr' fun e' => imp_congr_right fun _ => ih a
  | stop => exact Iff.rfl

/-- The loop rule. -/
theorem wpIn_loop {body : β → Program σ A (β ⊕ α)} {I : β → ε → σ → Prop}
    (hbody : ∀ b e s, I b e s →
      wpIn E (body b) (fun r e' s' => Sum.elim (I · e' s') (Φ · e' s') r) e s)
    (fuel : Nat) (b : β) (hI : I b e s) : wpIn E (loop body fuel b) Φ e s := by
  induction fuel generalizing b e s with
  | zero => trivial
  | succ fuel ih =>
      rw [loop, wpIn_bind]
      apply wpIn_mono _ (hbody b e s hI)
      intro r e' s' hr
      cases r with
      | inl b' => exact ih b' hr
      | inr a => exact hr

theorem wpIn_step {p' : Program σ A α} (h : wpIn E p Φ e s)
    (hstep : StepIn E (p, e, s) (p', e', s')) : wpIn E p' Φ e' s' := by
  cases hstep with
  | act => exact h
  | ask hanswer => exact h _ _ hanswer

theorem wpIn_steps {p' : Program σ A α} (h : wpIn E p Φ e s)
    (hsteps : StepsIn E (p, e, s) (p', e', s')) : wpIn E p' Φ e' s' := by
  generalize hc : (p, e, s) = c at hsteps
  generalize hc' : (p', e', s') = c' at hsteps
  induction hsteps generalizing p' e' s' with
  | refl =>
      cases hc'
      cases hc
      exact h
  | @tail c₁ c₂ _ hstep ih =>
      cases hc'
      exact wpIn_step (ih rfl) hstep

theorem wpIn_returns {a : α} (h : wpIn E p Φ e s) (hreturns : ReturnsIn E p e s a e' s') :
    Φ a e' s' :=
  wpIn_steps h hreturns

end Rules

/-! ## Environments that leave no choice -/

/-- In an environment that answers as `answer` does a program returns what it returns there. -/
theorem Ends.wpIn {ε' : Type} {E : Environment ε A} {answer : ε' → (q : Q) → A q × ε'}
    {R : ε → ε' → Prop} {p : Program σ A α} {Φ : α → ε' → σ → Prop} {e : ε} {r : ε'} {s : σ}
    (h : p.Ends answer Φ r s) (hR : R e r)
    (hanswer : ∀ e r q a e', R e r → E e q a e' → (answer r q).1 = a ∧ R e' (answer r q).2) :
    wpIn E p (fun a e' s' => ∃ r', R e' r' ∧ Φ a r' s') e s := by
  induction p generalizing e r s with
  | ret a =>
      obtain ⟨_, _, _, ⟨⟩, hend⟩ := h
      exact ⟨r, hR, hend⟩
  | act f k ih => exact ih s h hR
  | ask q k ih =>
      intro a e' hask
      obtain ⟨rfl, hR'⟩ := hanswer e r q a e' hR hask
      exact ih _ h hR'
  | stop =>
      obtain ⟨_, _, _, ⟨⟩, -⟩ := h

/-- A run in which every answer is one that the environment can give is a run in it. -/
theorem exists_returnsIn_of_run {ε' : Type} {E : Environment ε A}
    {answer : ε' → (q : Q) → A q × ε'} {ok : (q : Q) → σ → A q → Bool} {R : ε → ε' → Prop}
    {p : Program σ A α} {e : ε} {r r' : ε'} {s s' : σ} {a : α}
    (hanswer : ∀ e r q s, R e r → ok q s (answer r q).1 = true →
      ∃ e', E e q (answer r q).1 e' ∧ R e' (answer r q).2)
    (hR : R e r) (hok : p.keepsTo answer ok r s = true)
    (hrun : p.run answer r s = (some a, r', s')) : ∃ e', R e' r' ∧ ReturnsIn E p e s a e' s' := by
  induction p generalizing e r s with
  | ret b =>
      cases hrun
      exact ⟨e, hR, .refl⟩
  | act f k ih =>
      obtain ⟨e', hR', hreturns⟩ := ih s hR hok hrun
      exact ⟨e', hR', .head (.act f k e s) hreturns⟩
  | ask q k ih =>
      obtain ⟨hq, hrest⟩ := Bool.and_eq_true_iff.mp hok
      obtain ⟨e₁, hask, hR₁⟩ := hanswer e r q s hR hq
      obtain ⟨e', hR', hreturns⟩ := ih _ hR₁ hrest hrun
      exact ⟨e', hR', .head (.ask hask) hreturns⟩
  | stop => cases hrun

end Program

end Effect
