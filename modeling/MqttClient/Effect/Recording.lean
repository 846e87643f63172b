import MqttClient.Effect.Environment

/-! # Programs that keep a record of what they exchange

A program can keep an account of its exchanges in its state. If it enters each of them with
its next step and changes the account in no other way, then the account agrees with that of
its environment whenever the program returns.
-/

namespace Effect

namespace Program

variable {σ Q ε γ δ : Type} {A : Q → Type} {α β : Type}

/-- The program enters each exchange into its account with its next step. What has been
exchanged but not entered is `owed`. -/
def Records (account : σ → γ) (note : (q : Q) → A q → γ → γ) : Program σ A α → (γ → γ) → Prop
  | .ret _, owed => owed = id
  | .act f k, owed => (∀ s, account (f s) = owed (account s)) ∧ ∀ s, (k s).Records account note id
  | .ask q k, owed => owed = id ∧ ∀ a, (k a).Records account note (note q a)
  | .stop, _ => True

section Rules

variable {account : σ → γ} {note : (q : Q) → A q → γ → γ} {owed : γ → γ}

theorem records_pure (a : α) : (pure a : Program σ A α).Records account note id := rfl

theorem records_stop : (.stop : Program σ A α).Records account note owed := trivial

theorem Records.bind {p : Program σ A α} {g : α → Program σ A β}
    (hp : p.Records account note owed) (hg : ∀ a, (g a).Records account note id) :
    (p >>= g).Records account note owed := by
  induction p generalizing owed with
  | ret a =>
      obtain rfl : owed = id := hp
      exact hg a
  | act f k ih => exact ⟨hp.1, fun s => ih s (hp.2 s)⟩
  | ask q k ih => exact ⟨hp.1, fun a => ih a (hp.2 a)⟩
  | stop => trivial

theorem Records.ite {c : Prop} [Decidable c] {p q : Program σ A α}
    (hp : p.Records account note owed) (hq : q.Records account note owed) :
    (if c then p else q).Records account note owed := by
  split
  · exact hp
  · exact hq

/-- A step that leaves the account alone. -/
theorem records_modify {f : σ → σ} (hf : ∀ s, account (f s) = account s) :
    (modify f : Program σ A Unit).Records account note id :=
  ⟨hf, fun _ => rfl⟩

theorem records_atomically {v : σ → α} {f : σ → σ} (hf : ∀ s, account (f s) = account s) :
    (atomically v f : Program σ A α).Records account note id :=
  ⟨hf, fun _ => rfl⟩

/-- A question that is not accounted for. -/
theorem records_query {q : Q} (hq : ∀ a, note q a = id) :
    (query q : Program σ A (A q)).Records account note id :=
  ⟨rfl, hq⟩

/-- A question whose answer is entered at once. -/
theorem records_exchange {q : Q} {f : A q → σ → σ} {g : A q → Unit → Program σ A α}
    (hf : ∀ a s, account (f a s) = note q a (account s))
    (hg : ∀ a, (g a ()).Records account note id) :
    (query q >>= fun a => modify (f a) >>= g a).Records account note id :=
  ⟨rfl, fun a => ⟨hf a, fun _ => hg a⟩⟩

theorem Records.loop {body : β → Program σ A (β ⊕ α)}
    (hbody : ∀ b, (body b).Records account note id) (fuel : Nat) (b : β) :
    (loop body fuel b).Records account note id := by
  induction fuel generalizing b with
  | zero => trivial
  | succ fuel ih =>
      apply (hbody b).bind
      intro r
      cases r with
      | inl b' => exact ih b'
      | inr a => exact rfl

theorem Records.recursive {body : Nat → (δ → Program σ A α) → δ → Program σ A α}
    (hbody : ∀ fuel call, (∀ c, (call c).Records account note id) →
      ∀ c, (body fuel call c).Records account note id) (fuel : Nat) (c : δ) :
    (recursive body fuel c).Records account note id := by
  induction fuel generalizing c with
  | zero => trivial
  | succ fuel ih => exact hbody fuel _ ih c

/-! ## The account of the environment -/

variable {E : Environment ε A} {p p' : Program σ A α} {e e' : ε} {s s' : σ}

/-- What the environment has exchanged is what the program has entered and what it owes. -/
theorem Records.stepsIn (tally : ε → γ)
    (htally : ∀ e q a e', E e q a e' → tally e' = note q a (tally e))
    (hp : p.Records account note id) (hstart : tally e = account s)
    (hsteps : StepsIn E (p, e, s) (p', e', s')) :
    ∃ owed, p'.Records account note owed ∧ tally e' = owed (account s') := by
  generalize hc : (p, e, s) = c at hsteps
  generalize hc' : (p', e', s') = c' at hsteps
  induction hsteps generalizing p' e' s' with
  | refl =>
      cases hc'
      cases hc
      exact ⟨id, hp, hstart⟩
  | @tail c₁ c₂ _ hstep ih =>
      obtain ⟨owed, hp₁, howed⟩ := ih rfl
      cases hc'
      cases hstep with
      | act f k => exact ⟨id, hp₁.2 _, howed.trans (hp₁.1 _).symm⟩
      | @ask q k e₁ _ s₁ a hanswer =>
          obtain ⟨rfl, hk⟩ := hp₁
          refine ⟨note q a, hk a, ?_⟩
          rw [htally _ _ _ _ hanswer, howed]
          rfl

/-- When the program returns, both accounts agree. -/
theorem Records.returnsIn {a : α} (tally : ε → γ)
    (htally : ∀ e q a e', E e q a e' → tally e' = note q a (tally e))
    (hp : p.Records account note id) (hstart : tally e = account s)
    (hreturns : ReturnsIn E p e s a e' s') : tally e' = account s' := by
  obtain ⟨owed, howed, heq⟩ := hp.stepsIn tally htally hstart hreturns
  rw [heq, show owed = id from howed]
  rfl

end Rules

end Program

end Effect
