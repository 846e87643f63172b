import MqttClient.Effect.Program

/-! # A program logic for interacting programs

`wp D p Φ s` says that every run of `p` from `s` asks its questions only where
the discipline `D` allows it, changes the state only as `D` allows it, and
returns only where `Φ` holds, although others may change the state between its
steps as `D` allows them to. The rules are those of a weakest precondition.
-/

namespace Effect

/-- What a program is held to, and what it may expect. -/
structure Discipline (σ : Type) {Q : Type} (A : Q → Type) where
  /-- The program may put this question in this state. -/
  pre : Q → σ → Prop
  /-- The environment may give this answer in this state. -/
  allow : (q : Q) → σ → A q → Prop
  /-- Runs are considered in which the program takes the state to this state. -/
  may : σ → σ → Prop
  /-- The program may take the state to this state in one atomic step. -/
  guar : σ → σ → Prop
  /-- Others may take the state to this state between two steps. -/
  rely : σ → σ → Prop
  /-- The program may run out of fuel here. -/
  halts : σ → Prop

variable {σ Q : Type} {A : Q → Type} {α β γ : Type}

/-- The program is alone, and all of its runs are considered. -/
class Discipline.Sequential (D : Discipline σ A) : Prop where
  may_all : ∀ s t, D.may s t
  rely_iff : ∀ s t, D.rely s t ↔ t = s

/-- The program is alone; some of its runs may be left out. -/
class Discipline.Solo (D : Discipline σ A) : Prop where
  rely_iff : ∀ s t, D.rely s t ↔ t = s

namespace Program

variable {D : Discipline σ A}

/-- Weakest precondition. -/
def wp (D : Discipline σ A) : Program σ A α → (α → σ → Prop) → σ → Prop
  | .ret a, Φ, s => Φ a s
  | .act f k, Φ, s =>
      D.may s (f s) → D.guar s (f s) ∧ ∀ t, D.rely (f s) t → wp D (k s) Φ t
  | .ask q k, Φ, s => D.pre q s ∧ ∀ a, D.allow q s a → ∀ t, D.rely s t → wp D (k a) Φ t
  | .stop, _, s => D.halts s

theorem wp_ret (a : α) (Φ : α → σ → Prop) (s : σ) :
    wp D (.ret a) Φ s ↔ Φ a s := Iff.rfl

/-- A step guarantees its relation, and the program goes on from whatever others make of its
end. -/
theorem wp_act (f : σ → σ) (k : σ → Program σ A α) (Φ : α → σ → Prop) (s : σ) :
    wp D (.act f k) Φ s ↔
      (D.may s (f s) → D.guar s (f s) ∧ ∀ t, D.rely (f s) t → wp D (k s) Φ t) := Iff.rfl

/-- A question needs its precondition; the program goes on with every answer that is allowed. -/
theorem wp_ask (q : Q) (k : A q → Program σ A α) (Φ : α → σ → Prop) (s : σ) :
    wp D (.ask q k) Φ s ↔
      D.pre q s ∧ ∀ a, D.allow q s a → ∀ t, D.rely s t → wp D (k a) Φ t := Iff.rfl

/-- What ends in less ends in more. -/
theorem wp_mono {p : Program σ A α} {Φ Ψ : α → σ → Prop} {s : σ}
    (hmono : ∀ a t, Φ a t → Ψ a t) (h : wp D p Φ s) : wp D p Ψ s := by
  induction p generalizing s with
  | ret a => exact hmono a s h
  | act f k ih => exact fun hmay => ⟨(h hmay).1, fun t ht => ih s ((h hmay).2 t ht)⟩
  | ask q k ih => exact ⟨h.1, fun a ha t ht => ih a (h.2 a ha t ht)⟩
  | stop => exact h

/-- Two programs are taken one after the other. -/
theorem wp_bind (p : Program σ A α) (g : α → Program σ A β) (Φ : β → σ → Prop) (s : σ) :
    wp D (p >>= g) Φ s ↔ wp D p (fun a t => wp D (g a) Φ t) s := by
  induction p generalizing s with
  | ret a => exact Iff.rfl
  | act f k ih => simp only [act_bind, wp_act, ih]
  | ask q k ih => simp only [ask_bind, wp_ask, ih]
  | stop => exact Iff.rfl

/-- Two postconditions established by the same program hold together. -/
theorem wp_and {p : Program σ A α} {Φ Ψ : α → σ → Prop} {s : σ}
    (hleft : wp D p Φ s) (hright : wp D p Ψ s) : wp D p (fun a t => Φ a t ∧ Ψ a t) s := by
  induction p generalizing s with
  | ret a => exact ⟨hleft, hright⟩
  | act f k ih =>
      exact fun hmay =>
        ⟨(hleft hmay).1, fun t ht => ih s ((hleft hmay).2 t ht) ((hright hmay).2 t ht)⟩
  | ask q k ih =>
      exact ⟨hleft.1, fun a ha t ht => ih a (hleft.2 a ha t ht) (hright.2 a ha t ht)⟩
  | stop => exact hleft

/-- The loop rule for an invariant `I`; fuel may run out. -/
theorem wp_loop {body : β → Program σ A (β ⊕ α)} {I : β → σ → Prop} {Φ : α → σ → Prop}
    (hhalts : ∀ b s, I b s → D.halts s)
    (hbody : ∀ b s, I b s → wp D (body b) (fun r t => Sum.elim (I · t) (Φ · t) r) s)
    (fuel : Nat) (b : β) (s : σ) (h : I b s) : wp D (loop body fuel b) Φ s := by
  induction fuel generalizing b s with
  | zero => exact hhalts b s h
  | succ fuel ih =>
      simp only [loop, wp_bind]
      refine wp_mono ?_ (hbody b s h)
      rintro (b' | a) t ht
      · exact ih b' t ht
      · exact ht

/-- The rule for counting up with an invariant `I` of what has been done. -/
theorem wp_forEach_range {body : Nat → Program σ A Unit} {I : Nat → σ → Prop} {n : Nat}
    (hbody : ∀ i s, i < n → I i s → wp D (body i) (fun _ t => I (i + 1) t) s) (s : σ) (h : I 0 s) :
    wp D (forEach body (List.range n)) (fun _ t => I n t) s := by
  have hfrom (k i : Nat) (hk : i + k = n) (s : σ) (hs : I i s) :
      wp D (forEach body (List.range' i k)) (fun _ t => I n t) s := by
    induction k generalizing i s with
    | zero => rw [Nat.add_zero] at hk; exact hk ▸ hs
    | succ k ih =>
        simp only [List.range'_succ, forEach, wp_bind]
        apply wp_mono _ (hbody i s (by omega) hs)
        intro _ t ht
        exact ih (i + 1) (by omega) t ht
  rw [List.range_eq_range']
  exact hfrom n 0 (Nat.zero_add n) s h

/-- The rule for going through a list until there is an answer, which `Φ` holds of. -/
theorem wp_firstOf {body : β → Program σ A (Option α)} {I : σ → Prop} {Φ : α → σ → Prop}
    (hbody : ∀ b s, I s → wp D (body b) (fun r t => r.elim (I t) fun a => Φ a t) s)
    (bs : List β) (s : σ) (h : I s) :
    wp D (firstOf body bs) (fun r t => r.elim (I t) fun a => Φ a t) s := by
  induction bs generalizing s with
  | nil => exact h
  | cons b bs ih =>
      simp only [firstOf, wp_bind]
      apply wp_mono _ (hbody b s h)
      intro r t ht
      cases r with
      | none => exact ih t ht
      | some a => exact ht

/-- The rule for recursive procedures with the specification `P`, `Φ`. The
postcondition may mention the state in which the procedure was called. -/
theorem wp_recursive {body : Nat → (γ → Program σ A α) → γ → Program σ A α}
    {P : γ → σ → Prop} {Φ : γ → σ → α → σ → Prop}
    (hhalts : ∀ c s, P c s → D.halts s)
    (hbody : ∀ fuel call, (∀ c s, P c s → wp D (call c) (Φ c s) s) →
      ∀ c s, P c s → wp D (body fuel call c) (Φ c s) s)
    (fuel : Nat) (c : γ) (s : σ) (h : P c s) : wp D (recursive body fuel c) (Φ c s) s := by
  induction fuel generalizing c s with
  | zero => exact hhalts c s h
  | succ fuel ih => exact hbody fuel _ ih c s h

/-- What holds of a program under one discipline holds under another that is
as strict wherever `I` holds, and `I` holds throughout. -/
theorem wp_of_invariant {E : Discipline σ A} {I : σ → Prop} {p : Program σ A α}
    {Φ : α → σ → Prop} {s : σ}
    (hpre : ∀ q s, I s → D.pre q s → E.pre q s)
    (hallow : ∀ q s a, E.allow q s a → D.allow q s a)
    (hact : ∀ s t, I s → E.may s t → D.may s t ∧ (D.guar s t → E.guar s t ∧ I t))
    (hrely : ∀ s t, I s → E.rely s t → D.rely s t ∧ I t)
    (hhalts : ∀ s, I s → D.halts s → E.halts s)
    (h : wp D p Φ s) (hI : I s) : wp E p (fun a t => Φ a t ∧ I t) s := by
  induction p generalizing s with
  | ret a => exact ⟨h, hI⟩
  | act f k ih =>
      intro hmay
      obtain ⟨hmay', hguar⟩ := hact s (f s) hI hmay
      obtain ⟨hE, hI'⟩ := hguar (h hmay').1
      refine ⟨hE, fun t ht => ?_⟩
      obtain ⟨ht', hIt⟩ := hrely _ t hI' ht
      exact ih s ((h hmay').2 t ht') hIt
  | ask q k ih =>
      refine ⟨hpre q s hI h.1, fun a ha t ht => ?_⟩
      obtain ⟨ht', hIt⟩ := hrely _ t hI ht
      exact ih a (h.2 a (hallow q s a ha) t ht') hIt
  | stop => exact hhalts s hI h

/-! ## Programs that keep within a relation -/

/-- Every question is one of `asks`, and every atomic step, taken from any
state, is in `step`. -/
def Within (asks : Q → Prop) (step : σ → σ → Prop) : Program σ A α → Prop
  | .ret _ => True
  | .act f k => (∀ s, step s (f s)) ∧ ∀ s, (k s).Within asks step
  | .ask q k => asks q ∧ ∀ a, (k a).Within asks step
  | .stop => True

section Within

variable {asks : Q → Prop} {step : σ → σ → Prop}

theorem within_pure (a : α) : (pure a : Program σ A α).Within asks step := trivial

theorem within_stop : (.stop : Program σ A α).Within asks step := trivial

/-- Programs within a relation can be put one after the other. -/
theorem Within.bind {p : Program σ A α} {g : α → Program σ A β} (hp : p.Within asks step)
    (hg : ∀ a, (g a).Within asks step) : (p >>= g).Within asks step := by
  induction p with
  | ret a => exact hg a
  | act f k ih => exact ⟨hp.1, fun s => ih s (hp.2 s)⟩
  | ask q k ih => exact ⟨hp.1, fun a => ih a (hp.2 a)⟩
  | stop => trivial

/-- A wider relation holds more programs. -/
theorem Within.mono {asks' : Q → Prop} {step' : σ → σ → Prop} {p : Program σ A α}
    (h : p.Within asks step) (hasks : ∀ q, asks q → asks' q) (hstep : ∀ s t, step s t → step' s t) :
    p.Within asks' step' := by
  induction p with
  | ret a => trivial
  | act f k ih => exact ⟨fun s => hstep _ _ (h.1 s), fun s => ih s (h.2 s)⟩
  | ask q k ih => exact ⟨hasks q h.1, fun a => ih a (h.2 a)⟩
  | stop => trivial

/-- Both branches keep within the relation. -/
theorem Within.ite {c : Prop} [Decidable c] {p q : Program σ A α} (hp : p.Within asks step)
    (hq : q.Within asks step) : (if c then p else q).Within asks step := by
  split
  · exact hp
  · exact hq

/-- A step within the relation is a program within it. -/
theorem within_modify {f : σ → σ} (h : ∀ s, step s (f s)) :
    (modify f : Program σ A Unit).Within asks step := ⟨h, fun _ => trivial⟩

theorem within_atomically {v : σ → α} {f : σ → σ} (h : ∀ s, step s (f s)) :
    (atomically v f : Program σ A α).Within asks step := ⟨h, fun _ => trivial⟩

theorem within_query {q : Q} (h : asks q) :
    (query q : Program σ A (A q)).Within asks step := ⟨h, fun _ => trivial⟩

/-- A loop keeps within a relation if its body does. -/
theorem Within.loop {body : β → Program σ A (β ⊕ α)} (hbody : ∀ b, (body b).Within asks step)
    (fuel : Nat) (b : β) : (loop body fuel b).Within asks step := by
  induction fuel generalizing b with
  | zero => trivial
  | succ fuel ih =>
      refine (hbody b).bind ?_
      rintro (b' | a)
      · exact ih b'
      · trivial

theorem Within.forEach {body : β → Program σ A Unit} (hbody : ∀ b, (body b).Within asks step)
    (bs : List β) : (forEach body bs).Within asks step := by
  induction bs with
  | nil => trivial
  | cons b bs ih => exact (hbody b).bind fun _ => ih

theorem Within.firstOf {body : β → Program σ A (Option α)}
    (hbody : ∀ b, (body b).Within asks step) (bs : List β) :
    (firstOf body bs).Within asks step := by
  induction bs with
  | nil => trivial
  | cons b bs ih =>
      apply (hbody b).bind
      intro r
      cases r with
      | none => exact ih
      | some a => trivial

/-- So does a recursion whose body does where its calls do. -/
theorem Within.recursive {body : Nat → (γ → Program σ A α) → γ → Program σ A α}
    (hbody : ∀ fuel call, (∀ c, (call c).Within asks step) →
      ∀ c, (body fuel call c).Within asks step)
    (fuel : Nat) (c : γ) : (recursive body fuel c).Within asks step := by
  induction fuel generalizing c with
  | zero => trivial
  | succ fuel ih => exact hbody fuel _ ih c

/-- What is left of a program after a step keeps within the relation, and so did the step. -/
theorem Within.of_step {allow : (q : Q) → σ → A q → Prop} {p p' : Program σ A α} {s s' : σ}
    (h : p.Within asks step) (hstep : Step allow (p, s) (p', s')) :
    p'.Within asks step ∧ (step s s' ∨ s' = s) := by
  cases hstep with
  | act f k => exact ⟨h.2 s, .inl (h.1 s)⟩
  | ask => exact ⟨h.2 _, .inr rfl⟩

/-- What is left of a program within a relation keeps within it. -/
theorem Within.of_steps {allow : (q : Q) → σ → A q → Prop} {p p' : Program σ A α} {s s' : σ}
    (h : p.Within asks step) (hsteps : Steps allow (p, s) (p', s')) : p'.Within asks step := by
  generalize hc : (p', s') = c at hsteps
  induction hsteps generalizing p' s' with
  | refl => cases hc; exact h
  | tail _ hstep ih =>
      cases hc
      exact ((ih rfl).of_step hstep).1

/-- A program that keeps within a relation keeps what the relation preserves. -/
theorem Within.wp {I : σ → Prop} {p : Program σ A α} {s : σ} (h : p.Within asks step)
    (hpre : ∀ q s, I s → asks q → D.pre q s)
    (hact : ∀ s t, I s → step s t → D.may s t → D.guar s t ∧ I t)
    (hrely : ∀ s t, I s → D.rely s t → I t) (hhalts : ∀ s, I s → D.halts s) (hI : I s) :
    wp D p (fun _ t => I t) s := by
  induction p generalizing s with
  | ret a => exact hI
  | act f k ih =>
      intro hmay
      obtain ⟨hguar, hI'⟩ := hact s (f s) hI (h.1 s) hmay
      exact ⟨hguar, fun t ht => ih s (h.2 s) (hrely _ t hI' ht)⟩
  | ask q k ih => exact ⟨hpre q s hI h.1, fun a _ t ht => ih a (h.2 a) (hrely _ t hI ht)⟩
  | stop => exact hhalts s hI

/-- What holds of a program under one discipline holds under another, if the
program keeps within a relation in which the other lets it step. -/
theorem Within.transfer {E : Discipline σ A} {I : σ → Prop} {p : Program σ A α} {Φ : α → σ → Prop}
    {s : σ} (h : p.Within asks step) (hpre : ∀ q s, I s → asks q → E.pre q s)
    (hallow : ∀ q s a, E.allow q s a → D.allow q s a)
    (hact : ∀ s t, I s → step s t → E.may s t → D.may s t ∧ E.guar s t ∧ I t)
    (hrely : ∀ s t, I s → E.rely s t → D.rely s t ∧ I t) (hhalts : ∀ s, I s → E.halts s)
    (hwp : Program.wp D p Φ s) (hI : I s) : Program.wp E p Φ s := by
  induction p generalizing s with
  | ret a => exact hwp
  | act f k ih =>
      intro hmay
      obtain ⟨hmay', hguar, hI'⟩ := hact s (f s) hI (h.1 s) hmay
      refine ⟨hguar, fun t ht => ?_⟩
      obtain ⟨ht', hIt⟩ := hrely _ t hI' ht
      exact ih s (h.2 s) ((hwp hmay').2 t ht') hIt
  | ask q k ih =>
      refine ⟨hpre q s hI h.1, fun a ha t ht => ?_⟩
      obtain ⟨ht', hIt⟩ := hrely _ t hI ht
      exact ih a (h.2 a) (hwp.2 a (hallow q s a ha) t ht') hIt
  | stop => exact hhalts s hI

end Within

/-! ## Programs that keep an invariant -/

/-- From every state in `I` the program ends in `I`, and `R` relates the two. -/
def Preserves (D : Discipline σ A) (I : σ → Prop) (R : σ → σ → Prop) (p : Program σ A α) : Prop :=
  ∀ s, I s → wp D p (fun _ t => I t ∧ R s t) s

section Preserves

variable {I : σ → Prop} {R : σ → σ → Prop}

theorem preserves_pure (hrefl : ∀ s, R s s) (a : α) :
    Preserves D I R (pure a : Program σ A α) := fun s hs => ⟨hs, hrefl s⟩

/-- Two programs that keep an invariant keep it one after the other. -/
theorem Preserves.bind (htrans : ∀ s t u, R s t → R t u → R s u) {p : Program σ A α}
    {g : α → Program σ A β} (hp : Preserves D I R p) (hg : ∀ a, Preserves D I R (g a)) :
    Preserves D I R (p >>= g) := by
  intro s hs
  rw [wp_bind]
  apply wp_mono _ (hp s hs)
  intro a t ht
  apply wp_mono _ (hg a t ht.1)
  intro b u hu
  exact ⟨hu.1, htrans s t u ht.2 hu.2⟩

end Preserves

/-! ## What a program can return -/

/-- Every value that the program returns, whatever the states and the answers
it meets, satisfies `P`. -/
def Always (P : α → Prop) : Program σ A α → Prop
  | .ret a => P a
  | .act _ k => ∀ s, (k s).Always P
  | .ask _ k => ∀ a, (k a).Always P
  | .stop => True

section Always

variable {P : α → Prop}

theorem always_pure {a : α} (h : P a) : (pure a : Program σ A α).Always P := h

/-- Results with a property have every weaker one. -/
theorem Always.mono {P' : α → Prop} {p : Program σ A α} (h : p.Always P)
    (hmono : ∀ a, P a → P' a) : p.Always P' := by
  induction p with
  | ret a => exact hmono a h
  | act f k ih => exact fun s => ih s (h s)
  | ask q k ih => exact fun a => ih a (h a)
  | stop => trivial

/-- What the first program returns may be used for the second. -/
theorem Always.bind {R : β → Prop} {p : Program σ A α} {g : α → Program σ A β} (hp : p.Always P)
    (hg : ∀ a, P a → (g a).Always R) : (p >>= g).Always R := by
  induction p with
  | ret a => exact hg a hp
  | act f k ih => exact fun s => ih s (hp s)
  | ask q k ih => exact fun a => ih a (hp a)
  | stop => trivial

/-- Every program returns some value. -/
theorem always_true (p : Program σ A α) : p.Always fun _ => True := by
  induction p with
  | ret a => trivial
  | act f k ih => exact ih
  | ask q k ih => exact ih
  | stop => trivial

/-- What comes first does not matter. -/
theorem always_bind {R : β → Prop} {p : Program σ A α} {g : α → Program σ A β}
    (hg : ∀ a, (g a).Always R) : (p >>= g).Always R :=
  (always_true p).bind fun a _ => hg a

/-- A look at the state returns what is seen in some state. -/
theorem always_atomically {v : σ → α} {f : σ → σ} (h : ∀ s, P (v s)) :
    (atomically v f : Program σ A α).Always P := h

/-- The condition may be used in each branch. -/
theorem Always.ite {c : Prop} [Decidable c] {p q : Program σ A α} (hp : c → p.Always P)
    (hq : ¬ c → q.Always P) : (if c then p else q).Always P := by
  split
  next h => exact hp h
  next h => exact hq h

/-- A loop returns what its body returns in the end, by an invariant of its turns. -/
theorem Always.loop {body : β → Program σ A (β ⊕ α)} {I : β → Prop}
    (hbody : ∀ b, I b → (body b).Always (Sum.elim I P)) (fuel : Nat) {b : β} (hb : I b) :
    (loop body fuel b).Always P := by
  induction fuel generalizing b with
  | zero => trivial
  | succ fuel ih =>
      refine (hbody b hb).bind ?_
      rintro (b' | a) h
      · exact ih h
      · exact h

/-- What a program returns may be added to its postcondition. -/
theorem Always.wp_and {p : Program σ A α} {Φ : α → σ → Prop} {s : σ} (h : p.Always P)
    (hwp : wp D p Φ s) : wp D p (fun a t => Φ a t ∧ P a) s := by
  induction p generalizing s with
  | ret a => exact ⟨hwp, h⟩
  | act f k ih => exact fun hmay => ⟨(hwp hmay).1, fun t ht => ih s (h s) ((hwp hmay).2 t ht)⟩
  | ask q k ih => exact ⟨hwp.1, fun a ha t ht => ih a (h a) (hwp.2 a ha t ht)⟩
  | stop => exact hwp

/-- What a program returns, where nothing is asked of it. -/
theorem Always.wp {p : Program σ A α} {s : σ} (h : p.Always P) (hpre : ∀ q s, D.pre q s)
    (hguar : ∀ s t, D.guar s t) (hhalts : ∀ s, D.halts s) :
    Program.wp D p (fun a _ => P a) s := by
  induction p generalizing s with
  | ret a => exact h
  | act f k ih => exact fun _ => ⟨hguar s (f s), fun t _ => ih s (h s)⟩
  | ask q k ih => exact ⟨hpre q s, fun a _ t _ => ih a (h a)⟩
  | stop => exact hhalts s

/-- What is returned in a run has the property. -/
theorem Always.returns {allow : (q : Q) → σ → A q → Prop} {p : Program σ A α} {s s' : σ} {a : α}
    (h : p.Always P) (hret : Returns allow p s a s') : P a := by
  induction p generalizing s with
  | ret b => exact (returns_ret.mp hret).1 ▸ h
  | act f k ih => exact ih _ (h _) (returns_act.mp hret)
  | ask q k ih =>
      obtain ⟨b, -, hrest⟩ := returns_ask.mp hret
      exact ih b (h b) hrest
  | stop => exact absurd hret not_returns_stop

end Always

/-- Every value that the program returns satisfies `P`, whatever the states it meets and
whichever answers in `ok`. -/
def AlwaysIf (ok : (q : Q) → A q → Prop) (P : α → Prop) : Program σ A α → Prop
  | .ret a => P a
  | .act _ k => ∀ s, (k s).AlwaysIf ok P
  | .ask q k => ∀ a, ok q a → (k a).AlwaysIf ok P
  | .stop => True

section AlwaysIf

variable {ok : (q : Q) → A q → Prop} {P : α → Prop}

/-- What holds of all results holds of them with any answers. -/
theorem Always.alwaysIf {p : Program σ A α} (h : p.Always P) : p.AlwaysIf ok P := by
  induction p with
  | ret a => exact h
  | act f k ih => exact fun s => ih s (h s)
  | ask q k ih => exact fun a _ => ih a (h a)
  | stop => trivial

/-- The answers may be chosen for both programs alike. -/
theorem AlwaysIf.bind {R : β → Prop} {p : Program σ A α} {g : α → Program σ A β}
    (hp : p.AlwaysIf ok P) (hg : ∀ a, P a → (g a).AlwaysIf ok R) : (p >>= g).AlwaysIf ok R := by
  induction p with
  | ret a => exact hg a hp
  | act f k ih => exact fun s => ih s (hp s)
  | ask q k ih => exact fun a ha => ih a (hp a ha)
  | stop => trivial

/-- What comes first does not matter. -/
theorem alwaysIf_bind {R : β → Prop} {p : Program σ A α} {g : α → Program σ A β}
    (hg : ∀ a, (g a).AlwaysIf ok R) : (p >>= g).AlwaysIf ok R :=
  (always_true p).alwaysIf.bind fun a _ => hg a

/-- The condition may be used in each branch. -/
theorem AlwaysIf.ite {c : Prop} [Decidable c] {p q : Program σ A α} (hp : c → p.AlwaysIf ok P)
    (hq : ¬ c → q.AlwaysIf ok P) : (if c then p else q).AlwaysIf ok P := by
  split
  next h => exact hp h
  next h => exact hq h

/-- A loop returns what its body returns in the end. -/
theorem AlwaysIf.loop {body : β → Program σ A (β ⊕ α)}
    (hbody : ∀ b, (body b).AlwaysIf ok (Sum.elim (fun _ => True) P)) (fuel : Nat) (b : β) :
    (loop body fuel b).AlwaysIf ok P := by
  induction fuel generalizing b with
  | zero => trivial
  | succ fuel ih =>
      apply (hbody b).bind
      intro r hr
      cases r with
      | inl b' => exact ih b'
      | inr a => exact hr

/-- What a program returns may be added to its postcondition, where the environment keeps
to `ok`. -/
theorem AlwaysIf.wp_and {p : Program σ A α} {Φ : α → σ → Prop} {s : σ} (h : p.AlwaysIf ok P)
    (hallow : ∀ q s a, D.allow q s a → ok q a) (hwp : wp D p Φ s) :
    wp D p (fun a t => Φ a t ∧ P a) s := by
  induction p generalizing s with
  | ret a => exact ⟨hwp, h⟩
  | act f k ih => exact fun hmay => ⟨(hwp hmay).1, fun t ht => ih s (h s) ((hwp hmay).2 t ht)⟩
  | ask q k ih =>
      exact ⟨hwp.1, fun a ha t ht => ih a (h a (hallow q s a ha)) (hwp.2 a ha t ht)⟩
  | stop => exact hwp

end AlwaysIf

/-! ## A program alone -/

section Sequential

variable [hD : D.Sequential]

/-- A program that is alone goes on from where its step ends. -/
theorem wp_act_sequential (f : σ → σ) (k : σ → Program σ A α) (Φ : α → σ → Prop) (s : σ) :
    wp D (.act f k) Φ s ↔ D.guar s (f s) ∧ wp D (k s) Φ (f s) := by
  simp only [wp_act, hD.may_all, true_imp_iff, hD.rely_iff, forall_eq]

/-- A program that is alone goes on from where it has asked. -/
theorem wp_ask_sequential (q : Q) (k : A q → Program σ A α) (Φ : α → σ → Prop) (s : σ) :
    wp D (.ask q k) Φ s ↔ D.pre q s ∧ ∀ a, D.allow q s a → wp D (k a) Φ s := by
  simp only [wp_ask, hD.rely_iff, forall_eq]

theorem wp_modify (f : σ → σ) (Φ : Unit → σ → Prop) (s : σ) :
    wp D (modify f : Program σ A Unit) Φ s ↔ D.guar s (f s) ∧ Φ () (f s) := by
  simp [modify, wp_act_sequential, wp_ret]

theorem wp_atomically (v : σ → α) (f : σ → σ) (Φ : α → σ → Prop) (s : σ) :
    wp D (atomically v f : Program σ A α) Φ s ↔ D.guar s (f s) ∧ Φ (v s) (f s) := by
  simp [atomically, wp_act_sequential, wp_ret]

theorem wp_query (q : Q) (Φ : A q → σ → Prop) (s : σ) :
    wp D (query q : Program σ A (A q)) Φ s ↔ D.pre q s ∧ ∀ a, D.allow q s a → Φ a s := by
  simp [query, wp_ask_sequential, wp_ret]

/-! ## Soundness -/

/-- What holds of a program holds of what is left after a step. -/
theorem wp_step {p p' : Program σ A α} {Φ : α → σ → Prop} {s s' : σ}
    (h : wp D p Φ s) (hstep : Step D.allow (p, s) (p', s')) : wp D p' Φ s' := by
  cases hstep with
  | act f k => exact ((wp_act_sequential f k Φ s).mp h).2
  | ask hallow => exact ((wp_ask_sequential _ _ Φ s).mp h).2 _ hallow

/-- It holds of what is left after any number of steps. -/
theorem wp_steps {p p' : Program σ A α} {Φ : α → σ → Prop} {s s' : σ}
    (h : wp D p Φ s) (hsteps : Steps D.allow (p, s) (p', s')) : wp D p' Φ s' := by
  generalize hc : (p', s') = c at hsteps
  induction hsteps generalizing p' s' with
  | refl => cases hc; exact h
  | tail _ hstep ih =>
      cases hc
      exact wp_step (ih rfl) hstep

/-- A step changes the state only as the discipline allows it. -/
theorem guar_of_step {p p' : Program σ A α} {Φ : α → σ → Prop} {s s' : σ}
    (h : wp D p Φ s) (hstep : Step D.allow (p, s) (p', s')) : D.guar s s' ∨ s' = s := by
  cases hstep with
  | act f k => exact .inl ((wp_act_sequential f k Φ s).mp h).1
  | ask => exact .inr rfl

/-- The postcondition holds of what is returned. -/
theorem wp_returns {p : Program σ A α} {Φ : α → σ → Prop} {s s' : σ} {a : α}
    (h : wp D p Φ s) (hret : Returns D.allow p s a s') : Φ a s' :=
  wp_steps h hret

/-- What a program returns under a discipline it can return. -/
theorem wp_and_returns {p : Program σ A α} {Φ : α → σ → Prop} {s : σ} (h : wp D p Φ s) :
    wp D p (fun a t => Φ a t ∧ Returns D.allow p s a t) s := by
  induction p generalizing s with
  | ret a => exact ⟨h, .refl⟩
  | act f k ih =>
      obtain ⟨hguar, hk⟩ := (wp_act_sequential f k Φ s).mp h
      apply (wp_act_sequential f k _ s).mpr
      exact ⟨hguar, wp_mono (fun _ _ ht => ⟨ht.1, returns_act.mpr ht.2⟩) (ih s hk)⟩
  | ask q k ih =>
      obtain ⟨hpre, hk⟩ := (wp_ask_sequential q k Φ s).mp h
      apply (wp_ask_sequential q k _ s).mpr
      refine ⟨hpre, fun a ha => ?_⟩
      exact wp_mono (fun _ _ ht => ⟨ht.1, returns_ask.mpr ⟨a, ha, ht.2⟩⟩) (ih a (hk a ha))
  | stop => exact h

/-- A question is reached only where the discipline allows to ask it. -/
theorem wp_asks {p : Program σ A α} {q : Q} {k : A q → Program σ A α} {Φ : α → σ → Prop}
    {s s' : σ} (h : wp D p Φ s) (hsteps : Steps D.allow (p, s) (.ask q k, s')) : D.pre q s' :=
  (wp_steps h hsteps).1

/-- A property that every allowed atomic step preserves holds throughout a run. -/
theorem invariant_steps {I : σ → Prop} (hguar : ∀ s t, I s → D.guar s t → I t)
    {p p' : Program σ A α} {Φ : α → σ → Prop} {s s' : σ} (h : wp D p Φ s) (hI : I s)
    (hsteps : Steps D.allow (p, s) (p', s')) : I s' := by
  generalize hc : (p', s') = c at hsteps
  induction hsteps generalizing p' s' with
  | refl => cases hc; exact hI
  | @tail b c hfirst hstep ih =>
      cases hc
      obtain ⟨q, t⟩ := b
      have ht : I t := ih rfl
      have hwp : wp D q Φ t := wp_steps h hfirst
      cases hstep with
      | act f k => exact hguar t _ ht ((wp_act_sequential f k Φ t).mp hwp).1
      | ask hallow => exact ht

end Sequential

/-! ## A program alone, some of whose runs are left out -/

section Solo

variable [hD : D.Solo]

/-- A program that is alone goes on from a step that may be taken. -/
theorem wp_act_solo {f : σ → σ} {k : σ → Program σ A α} {Φ : α → σ → Prop} {s : σ} :
    wp D (.act f k) Φ s ↔ (D.may s (f s) → D.guar s (f s) ∧ wp D (k s) Φ (f s)) := by
  simp only [wp_act, hD.rely_iff, forall_eq]

/-- It goes on from a question with every answer that is allowed. -/
theorem wp_ask_solo {q : Q} {k : A q → Program σ A α} {Φ : α → σ → Prop} {s : σ} :
    wp D (.ask q k) Φ s ↔ D.pre q s ∧ ∀ a, D.allow q s a → wp D (k a) Φ s := by
  simp only [wp_ask, hD.rely_iff, forall_eq]

/-- A step that may be taken guarantees its relation. -/
theorem wp_move {p p' : Program σ A α} {Φ : α → σ → Prop} {s s' : σ} (h : wp D p Φ s)
    (hmove : Move D.allow D.may (p, s) (p', s')) : (D.guar s s' ∨ s' = s) ∧ wp D p' Φ s' := by
  cases hmove with
  | act hmay =>
      obtain ⟨hguar, hwp⟩ := wp_act_solo.mp h hmay
      exact ⟨.inl hguar, hwp⟩
  | ask hallow => exact ⟨.inr rfl, (wp_ask_solo.mp h).2 _ hallow⟩

/-- What holds of a program holds of what is left after steps that may be taken. -/
theorem wp_moves {p p' : Program σ A α} {Φ : α → σ → Prop} {s s' : σ} (h : wp D p Φ s)
    (hmoves : Moves D.allow D.may (p, s) (p', s')) : wp D p' Φ s' := by
  generalize hc : (p', s') = c at hmoves
  induction hmoves generalizing p' s' with
  | refl => cases hc; exact h
  | tail _ hmove ih =>
      cases hc
      exact (wp_move (ih rfl) hmove).2

/-- A step changes the state only as the discipline allows it. -/
theorem guar_of_moves {p p' p'' : Program σ A α} {Φ : α → σ → Prop} {s s' s'' : σ}
    (h : wp D p Φ s) (hmoves : Moves D.allow D.may (p, s) (p', s'))
    (hmove : Move D.allow D.may (p', s') (p'', s'')) : D.guar s' s'' ∨ s'' = s' :=
  (wp_move (wp_moves h hmoves) hmove).1

/-- What every step establishes or keeps holds throughout a run. -/
theorem invariant_moves {I : σ → Prop} (hguar : ∀ s t, I s → D.guar s t → I t)
    {p p' : Program σ A α} {Φ : α → σ → Prop} {s s' : σ} (h : wp D p Φ s) (hI : I s)
    (hmoves : Moves D.allow D.may (p, s) (p', s')) : I s' := by
  generalize hc : (p', s') = c at hmoves
  induction hmoves generalizing p' s' with
  | refl => cases hc; exact hI
  | @tail b c hfirst hmove ih =>
      cases hc
      obtain ⟨q, t⟩ := b
      have ht : I t := ih rfl
      cases (wp_move (wp_moves h hfirst) hmove).1 with
      | inl hstep => exact hguar t _ ht hstep
      | inr heq => exact heq ▸ ht

end Solo

end Program

end Effect
