import MqttClient.Effect.Logic

/-! # Runs that end

Total correctness in a given environment: the run ends, and with what. The
rules follow the program, as those for all environments do.
-/

namespace Effect

variable {σ Q : Type} {A : Q → Type} {ε α β : Type}

namespace Program

/-- The run ends, with a result, an environment and a state that are `Φ`. -/
def Ends (answer : ε → (q : Q) → A q × ε) (p : Program σ A α) (Φ : α → ε → σ → Prop) (e : ε)
    (s : σ) : Prop :=
  ∃ a e' s', p.run answer e s = (some a, e', s') ∧ Φ a e' s'

variable {answer : ε → (q : Q) → A q × ε} {p : Program σ A α} {Φ Ψ : α → ε → σ → Prop} {e : ε}
  {s : σ}

theorem ends_ret {a : α} (h : Φ a e s) : (.ret a : Program σ A α).Ends answer Φ e s :=
  ⟨a, e, s, rfl, h⟩

theorem Ends.mono (h : p.Ends answer Φ e s) (hmono : ∀ a e' s', Φ a e' s' → Ψ a e' s') :
    p.Ends answer Ψ e s := by
  obtain ⟨a, e', s', hrun, hend⟩ := h
  exact ⟨a, e', s', hrun, hmono a e' s' hend⟩

theorem ends_bind_of_run {g : α → Program σ A β} {Θ : β → ε → σ → Prop} {a : α} {e' : ε} {s' : σ}
    (h : p.run answer e s = (some a, e', s')) (hnext : (g a).Ends answer Θ e' s') :
    (p >>= g).Ends answer Θ e s := by
  obtain ⟨b, e'', s'', hrun, hend⟩ := hnext
  exact ⟨b, e'', s'', by rw [run_bind_of_some _ h, hrun], hend⟩

/-- What comes next starts where the first part ends. -/
theorem Ends.bind {g : α → Program σ A β} {Θ : β → ε → σ → Prop} (h : p.Ends answer Φ e s)
    (hnext : ∀ a e' s', Φ a e' s' → (g a).Ends answer Θ e' s') : (p >>= g).Ends answer Θ e s := by
  obtain ⟨a, e', s', hrun, hend⟩ := h
  exact ends_bind_of_run hrun (hnext a e' s' hend)

theorem ends_modify_bind {f : σ → σ} {g : Unit → Program σ A β} {Θ : β → ε → σ → Prop}
    (h : (g ()).Ends answer Θ e (f s)) : (modify f >>= g).Ends answer Θ e s := h

theorem ends_atomically_bind {v : σ → α} {f : σ → σ} {g : α → Program σ A β}
    {Θ : β → ε → σ → Prop} (h : (g (v s)).Ends answer Θ e (f s)) :
    (atomically v f >>= g).Ends answer Θ e s := h

theorem ends_bind_assoc {γ : Type} {g : α → Program σ A β} {k : β → Program σ A γ}
    {Θ : γ → ε → σ → Prop} (h : (p >>= fun a => g a >>= k).Ends answer Θ e s) :
    ((p >>= g) >>= k).Ends answer Θ e s := by
  rwa [bind_assoc]

/-- A run only takes the steps that its program is made of. -/
theorem Within.ends {asks : Q → Prop} {step : σ → σ → Prop} (hrefl : ∀ s, step s s)
    (htrans : ∀ s t u, step s t → step t u → step s u) (hp : p.Within asks step)
    (h : p.Ends answer Φ e s) : p.Ends answer (fun a e' s' => step s s' ∧ Φ a e' s') e s := by
  induction p generalizing e s with
  | ret a =>
      obtain ⟨_, _, _, ⟨⟩, hend⟩ := h
      exact ends_ret ⟨hrefl s, hend⟩
  | act f k ih =>
      exact (ih s (hp.2 s) h).mono fun _ _ s' hs' => ⟨htrans _ _ _ (hp.1 s) hs'.1, hs'.2⟩
  | ask q k ih => exact ih _ (hp.2 _) h
  | stop =>
      obtain ⟨_, _, _, ⟨⟩, -⟩ := h

end Program

end Effect
