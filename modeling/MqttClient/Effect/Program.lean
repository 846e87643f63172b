import Mathlib.Algebra.Order.Ring.Int
import Mathlib.Logic.Relation

/-! # Programs that interact with an environment

A program is a tree of atomic actions on a state and of questions put to an
environment: a device, a clock, other code. Loops and recursion carry fuel; a
program that has used up its fuel is `stop`, so that a statement about every
amount of fuel is a statement about every prefix of every run.
-/

namespace Effect

/-- Programs over the states `σ`. A question `q` is answered in `A q`. -/
inductive Program (σ : Type) {Q : Type} (A : Q → Type) (α : Type) : Type where
  | ret (a : α)
  /-- Atomically replace the state `s` by `f s` and go on with `k s`. -/
  | act (f : σ → σ) (k : σ → Program σ A α)
  | ask (q : Q) (k : A q → Program σ A α)
  | stop

namespace Program

variable {σ Q : Type} {A : Q → Type} {α β γ ε : Type}

/-- Sequential composition. -/
def bind : Program σ A α → (α → Program σ A β) → Program σ A β
  | .ret a, g => g a
  | .act f k, g => .act f fun s => (k s).bind g
  | .ask q k, g => .ask q fun a => (k a).bind g
  | .stop, _ => .stop

instance : Monad (Program σ A) where
  pure := .ret
  bind := bind

@[simp] theorem pure_eq (a : α) : (pure a : Program σ A α) = .ret a := rfl

/-- What follows on a result goes on from it. -/
@[simp] theorem ret_bind (a : α) (g : α → Program σ A β) :
    (Program.ret a >>= g : Program σ A β) = g a := rfl

/-- What follows on a step follows on what comes behind the step. -/
@[simp] theorem act_bind (f : σ → σ) (k : σ → Program σ A α) (g : α → Program σ A β) :
    (Program.act f k >>= g : Program σ A β) = .act f fun s => k s >>= g := rfl

/-- What follows on a question follows on what is done with the answer. -/
@[simp] theorem ask_bind (q : Q) (k : A q → Program σ A α) (g : α → Program σ A β) :
    (Program.ask q k >>= g : Program σ A β) = .ask q fun a => k a >>= g := rfl

/-- Nothing follows on a stop. -/
@[simp] theorem stop_bind (g : α → Program σ A β) :
    (Program.stop >>= g : Program σ A β) = .stop := rfl

/-- Programs can be put one after the other in any grouping. -/
theorem bind_assoc (p : Program σ A α) (g : α → Program σ A β) (h : β → Program σ A γ) :
    (p >>= g) >>= h = p >>= fun a => g a >>= h := by
  induction p with
  | ret a => rfl
  | act f k ih => exact congrArg (Program.act f) (funext ih)
  | ask q k ih => exact congrArg (Program.ask q) (funext ih)
  | stop => rfl

/-! ## Primitive steps -/

def get : Program σ A σ := .act id .ret

def modify (f : σ → σ) : Program σ A Unit := .act f fun _ => .ret ()

/-- Read a value and update the state in one atomic step. -/
def atomically (v : σ → α) (f : σ → σ) : Program σ A α := .act f fun s => .ret (v s)

/-- Put a question to the environment. -/
def query (q : Q) : Program σ A (A q) := .ask q .ret

/-! ## Loops and recursion -/

/-- Repeat `body` until it answers `inr`. -/
def loop (body : β → Program σ A (β ⊕ α)) : Nat → β → Program σ A α
  | 0, _ => .stop
  | fuel + 1, b => body b >>= fun
      | .inl b' => loop body fuel b'
      | .inr a => .ret a

/-- Run `body` on one element after the other. -/
def forEach (body : β → Program σ A Unit) : List β → Program σ A Unit
  | [] => .ret ()
  | b :: bs => body b >>= fun _ => forEach body bs

/-- Run `body` on one element after the other, until it answers. -/
def firstOf (body : β → Program σ A (Option α)) : List β → Program σ A (Option α)
  | [] => .ret none
  | b :: bs => body b >>= fun
      | some a => .ret (some a)
      | none => firstOf body bs

/-- Procedures that call each other: `body fuel call c` is the body of the
procedure `c`, in which `call` calls a procedure and loops take `fuel`. -/
def recursive (body : Nat → (γ → Program σ A α) → γ → Program σ A α) :
    Nat → γ → Program σ A α
  | 0, _ => .stop
  | fuel + 1, c => body fuel (recursive body fuel) c

/-! ## Running a program against a given environment -/

/-- The run in which the questions are answered by `answer` from its own
state. The result is absent if the run ends in `stop`. -/
def run (answer : ε → (q : Q) → A q × ε) : Program σ A α → ε → σ → Option α × ε × σ
  | .ret a, e, s => (some a, e, s)
  | .act f k, e, s => (k s).run answer e (f s)
  | .ask q k, e, s => (k (answer e q).1).run answer (answer e q).2 s
  | .stop, e, s => (none, e, s)

section Run

variable (answer : ε → (q : Q) → A q × ε)

@[simp] theorem run_ret (a : α) (e : ε) (s : σ) :
    (Program.ret a : Program σ A α).run answer e s = (some a, e, s) := rfl

/-- A step is taken in the present state. -/
@[simp] theorem run_act (f : σ → σ) (k : σ → Program σ A α) (e : ε) (s : σ) :
    (Program.act f k).run answer e s = (k s).run answer e (f s) := rfl

/-- A question is answered by the environment, which may change with it. -/
@[simp] theorem run_ask (q : Q) (k : A q → Program σ A α) (e : ε) (s : σ) :
    (Program.ask q k).run answer e s = (k (answer e q).1).run answer (answer e q).2 s := rfl

@[simp] theorem run_stop (e : ε) (s : σ) :
    (Program.stop : Program σ A α).run answer e s = (none, e, s) := rfl

/-- Two programs run one after the other, if the first one returns. -/
theorem run_bind (p : Program σ A α) (g : α → Program σ A β) (e : ε) (s : σ) :
    (p >>= g).run answer e s =
      match p.run answer e s with
      | (some a, e', s') => (g a).run answer e' s'
      | (none, e', s') => (none, e', s') := by
  induction p generalizing e s with
  | ret a => rfl
  | act f k ih => simp only [act_bind, run_act, ih]
  | ask q k ih => simp only [ask_bind, run_ask, ih]
  | stop => rfl

/-- A program that has returned makes way for the next one. -/
theorem run_bind_of_some {p : Program σ A α} {g : α → Program σ A β} {e e' : ε} {s s' : σ} {a : α}
    (h : p.run answer e s = (some a, e', s')) :
    (p >>= g).run answer e s = (g a).run answer e' s' := by
  rw [run_bind, h]

end Run

/-- The configuration after `n` steps of the run in which the questions are
answered by `answer`, or at its end. -/
def advance (answer : ε → (q : Q) → A q × ε) :
    Nat → Program σ A α → ε → σ → Program σ A α × σ
  | 0, p, _, s => (p, s)
  | n + 1, .act f k, e, s => (k s).advance answer n e (f s)
  | n + 1, .ask q k, e, s => (k (answer e q).1).advance answer n (answer e q).2 s
  | _ + 1, .ret a, _, s => (.ret a, s)
  | _ + 1, .stop, _, s => (.stop, s)

/-- In the run in which the questions are answered by `answer`, every question
and its answer are `ok` in the state in which they come up. -/
def keepsTo (answer : ε → (q : Q) → A q × ε) (ok : (q : Q) → σ → A q → Bool) :
    Program σ A α → ε → σ → Bool
  | .ret _, _, _ => true
  | .act f k, e, s => (k s).keepsTo answer ok e (f s)
  | .ask q k, e, s =>
      ok q s (answer e q).1 && (k (answer e q).1).keepsTo answer ok (answer e q).2 s
  | .stop, _, _ => true

/-- In the run in which the questions are answered by `answer`, also every
atomic step is `may`. -/
def movesTo (answer : ε → (q : Q) → A q × ε) (ok : (q : Q) → σ → A q → Bool)
    (may : σ → σ → Bool) : Nat → Program σ A α → ε → σ → Bool
  | 0, _, _, _ => true
  | n + 1, .act f k, e, s => may s (f s) && (k s).movesTo answer ok may n e (f s)
  | n + 1, .ask q k, e, s =>
      ok q s (answer e q).1 && (k (answer e q).1).movesTo answer ok may n (answer e q).2 s
  | _ + 1, .ret _, _, _ => true
  | _ + 1, .stop, _, _ => true

/-- The question that a program asks next, if it asks one. -/
def question : Program σ A α → Option Q
  | .ask q _ => some q
  | _ => none

/-- What a program returns, if it does nothing more. -/
def returned : Program σ A α → Option α
  | .ret a => some a
  | _ => none

/-- The program changes the state next. -/
def isAct : Program σ A α → Bool
  | .act .. => true
  | _ => false

/-- A program that has a question next is one that asks it. -/
theorem eq_ask_of_question {p : Program σ A α} {q : Q} (h : p.question = some q) :
    ∃ k, p = .ask q k := by
  cases p with
  | ask q' k => cases h; exact ⟨k, rfl⟩
  | ret | act | stop => cases h

/-- A program that has a result is one that returns it. -/
theorem eq_ret_of_returned {p : Program σ A α} {a : α} (h : p.returned = some a) : p = .ret a := by
  cases p with
  | ret a' => cases h; rfl
  | ask | act | stop => cases h

/-! ## Small steps -/

/-- One step of a run. `allow q s a`: the environment may answer `a` when it
is asked `q` in the state `s`. -/
inductive Step (allow : (q : Q) → σ → A q → Prop) :
    Program σ A α × σ → Program σ A α × σ → Prop where
  | act (f : σ → σ) (k : σ → Program σ A α) (s : σ) : Step allow (.act f k, s) (k s, f s)
  | ask {q : Q} {k : A q → Program σ A α} {s : σ} {a : A q} (h : allow q s a) :
      Step allow (.ask q k, s) (k a, s)

/-- Finitely many steps of a run. -/
abbrev Steps (allow : (q : Q) → σ → A q → Prop) :
    Program σ A α × σ → Program σ A α × σ → Prop :=
  Relation.ReflTransGen (Step allow)

/-- A step of a run whose atomic steps are all in `may`. -/
inductive Move (allow : (q : Q) → σ → A q → Prop) (may : σ → σ → Prop) :
    Program σ A α × σ → Program σ A α × σ → Prop where
  | act {f : σ → σ} {k : σ → Program σ A α} {s : σ} (h : may s (f s)) :
      Move allow may (.act f k, s) (k s, f s)
  | ask {q : Q} {k : A q → Program σ A α} {s : σ} {a : A q} (h : allow q s a) :
      Move allow may (.ask q k, s) (k a, s)

/-- Finitely many such steps. -/
abbrev Moves (allow : (q : Q) → σ → A q → Prop) (may : σ → σ → Prop) :
    Program σ A α × σ → Program σ A α × σ → Prop :=
  Relation.ReflTransGen (Move allow may)

/-- The program can return `a`, leaving the state `s'`. -/
def Returns (allow : (q : Q) → σ → A q → Prop) (p : Program σ A α) (s : σ) (a : α) (s' : σ) :
    Prop :=
  Steps allow (p, s) (.ret a, s')

variable {allow : (q : Q) → σ → A q → Prop}

/-- There is one way to take a step. -/
theorem step_act_iff {f : σ → σ} {k : σ → Program σ A α} {s : σ} {c : Program σ A α × σ} :
    Step allow (.act f k, s) c ↔ c = (k s, f s) := by
  constructor
  · intro h
    cases h
    rfl
  · rintro rfl
    exact .act f k s

/-- Whatever a narrow environment answers, a wide one may answer as well. -/
theorem Step.mono {allow' : (q : Q) → σ → A q → Prop} {c c' : Program σ A α × σ}
    (hmono : ∀ q s a, allow q s a → allow' q s a) (h : Step allow c c') : Step allow' c c' := by
  cases h with
  | act f k s => exact .act f k s
  | ask h => exact .ask (hmono _ _ _ h)

/-- So every run in a narrow environment is one in a wide environment. -/
theorem Steps.mono {allow' : (q : Q) → σ → A q → Prop} {c c' : Program σ A α × σ}
    (hmono : ∀ q s a, allow q s a → allow' q s a) (h : Steps allow c c') : Steps allow' c c' :=
  Relation.ReflTransGen.mono (fun _ _ h => Step.mono hmono h) _ _ h

/-- A step that is allowed is a step. -/
theorem Move.step {may : σ → σ → Prop} {c c' : Program σ A α × σ} (h : Move allow may c c') :
    Step allow c c' := by
  cases h with
  | act => exact .act _ _ _
  | ask h => exact .ask h

/-- Runs whose steps meet a narrow condition meet a wide one. -/
theorem Moves.may_mono {may may' : σ → σ → Prop} {c c' : Program σ A α × σ}
    (hmono : ∀ s t, may s t → may' s t) (h : Moves allow may c c') : Moves allow may' c c' := by
  refine Relation.ReflTransGen.mono (fun _ _ hmove => ?_) _ _ h
  cases hmove with
  | act hmay => exact .act (hmono _ _ hmay)
  | ask hallow => exact .ask hallow

/-- A run with a condition on its steps is a run. -/
theorem Moves.steps {may : σ → σ → Prop} {c c' : Program σ A α × σ} (h : Moves allow may c c') :
    Steps allow c c' := Relation.ReflTransGen.mono (fun _ _ h => h.step) _ _ h

theorem returns_ret {a b : α} {s s' : σ} :
    Returns allow (.ret a) s b s' ↔ b = a ∧ s' = s := by
  constructor
  · intro h
    cases Relation.ReflTransGen.cases_head h with
    | inl heq => cases heq; exact ⟨rfl, rfl⟩
    | inr hstep => obtain ⟨c, hc, _⟩ := hstep; cases hc
  · rintro ⟨rfl, rfl⟩
    exact .refl

/-- A program that begins with a step returns what it returns behind it. -/
theorem returns_act {f : σ → σ} {k : σ → Program σ A α} {a : α} {s s' : σ} :
    Returns allow (.act f k) s a s' ↔ Returns allow (k s) (f s) a s' := by
  constructor
  · intro h
    cases Relation.ReflTransGen.cases_head h with
    | inl heq => cases heq
    | inr hstep => obtain ⟨c, hc, hrest⟩ := hstep; cases hc; exact hrest
  · exact fun h => .head (.act f k s) h

/-- A question may be followed by any answer that is allowed. -/
theorem returns_ask {q : Q} {k : A q → Program σ A α} {b : α} {s s' : σ} :
    Returns allow (.ask q k) s b s' ↔ ∃ a, allow q s a ∧ Returns allow (k a) s b s' := by
  constructor
  · intro h
    cases Relation.ReflTransGen.cases_head h with
    | inl heq => cases heq
    | inr hstep =>
        obtain ⟨c, hc, hrest⟩ := hstep
        cases hc with
        | ask hallow => exact ⟨_, hallow, hrest⟩
  · rintro ⟨a, hallow, h⟩
    exact .head (.ask hallow) h

/-- A program that has stopped returns nothing. -/
theorem not_returns_stop {a : α} {s s' : σ} : ¬ Returns allow .stop s a s' := by
  intro h
  cases Relation.ReflTransGen.cases_head h with
  | inl heq => cases heq
  | inr hstep => obtain ⟨c, hc, _⟩ := hstep; cases hc

/-- Two programs return if the first one does and the second one does from there. -/
theorem returns_bind {p : Program σ A α} {g : α → Program σ A β} {b : β} {s s' : σ} :
    Returns allow (p >>= g) s b s' ↔
      ∃ a t, Returns allow p s a t ∧ Returns allow (g a) t b s' := by
  induction p generalizing s with
  | ret a =>
      simp only [ret_bind, returns_ret]
      constructor
      · exact fun h => ⟨a, s, ⟨rfl, rfl⟩, h⟩
      · rintro ⟨_, _, ⟨rfl, rfl⟩, h⟩
        exact h
  | act f k ih => simp only [act_bind, returns_act, ih]
  | ask q k ih =>
      simp only [ask_bind, returns_ask, ih]
      constructor
      · rintro ⟨a, hallow, c, t, hp, hg⟩
        exact ⟨c, t, ⟨a, hallow, hp⟩, hg⟩
      · rintro ⟨c, t, ⟨a, hallow, hp⟩, hg⟩
        exact ⟨a, hallow, c, t, hp, hg⟩
  | stop => simp [not_returns_stop]

theorem returns_atomically {v : σ → α} {f : σ → σ} {a : α} {s s' : σ} :
    Returns allow (atomically v f : Program σ A α) s a s' ↔ a = v s ∧ s' = f s := by
  simp only [atomically, returns_act, returns_ret]

theorem returns_modify {f : σ → σ} {a : Unit} {s s' : σ} :
    Returns allow (modify f : Program σ A Unit) s a s' ↔ s' = f s := by
  simp only [modify, returns_act, returns_ret, true_and]

/-! ## Runs that an environment can bring about -/

/-- The environment can answer so that the program returns where `Φ` holds. -/
def CanReturn (allow : (q : Q) → σ → A q → Prop) (p : Program σ A α) (Φ : α → σ → Prop) (s : σ) :
    Prop :=
  ∃ a t, Returns allow p s a t ∧ Φ a t

section CanReturn

/-- What can be returned with more can be returned with less. -/
theorem CanReturn.mono {p : Program σ A α} {Φ Ψ : α → σ → Prop} {s : σ}
    (hmono : ∀ a t, Φ a t → Ψ a t) (h : CanReturn allow p Φ s) : CanReturn allow p Ψ s := by
  obtain ⟨a, t, hret, hΦ⟩ := h
  exact ⟨a, t, hret, hmono a t hΦ⟩

theorem canReturn_ret (a : α) (Φ : α → σ → Prop) (s : σ) :
    CanReturn allow (.ret a) Φ s ↔ Φ a s := by
  simp only [CanReturn, returns_ret]
  constructor
  · rintro ⟨_, _, ⟨rfl, rfl⟩, hΦ⟩
    exact hΦ
  · exact fun hΦ => ⟨a, s, ⟨rfl, rfl⟩, hΦ⟩

theorem canReturn_act (f : σ → σ) (k : σ → Program σ A α) (Φ : α → σ → Prop) (s : σ) :
    CanReturn allow (.act f k) Φ s ↔ CanReturn allow (k s) Φ (f s) := by
  simp [CanReturn, returns_act]

/-- The environment chooses the answer. -/
theorem canReturn_ask (q : Q) (k : A q → Program σ A α) (Φ : α → σ → Prop) (s : σ) :
    CanReturn allow (.ask q k) Φ s ↔ ∃ a, allow q s a ∧ CanReturn allow (k a) Φ s := by
  simp only [CanReturn, returns_ask]
  constructor
  · rintro ⟨b, t, ⟨a, hallow, hret⟩, hΦ⟩
    exact ⟨a, hallow, b, t, hret, hΦ⟩
  · rintro ⟨a, hallow, b, t, hret, hΦ⟩
    exact ⟨b, t, ⟨a, hallow, hret⟩, hΦ⟩

/-- Two programs can return what the second one can return behind the first. -/
theorem canReturn_bind (p : Program σ A α) (g : α → Program σ A β) (Φ : β → σ → Prop)
    (s : σ) :
    CanReturn allow (p >>= g) Φ s ↔ CanReturn allow p (fun a t => CanReturn allow (g a) Φ t) s := by
  simp only [CanReturn, returns_bind]
  constructor
  · rintro ⟨b, u, ⟨a, t, hp, hg⟩, hΦ⟩
    exact ⟨a, t, hp, b, u, hg, hΦ⟩
  · rintro ⟨a, t, hp, b, u, hg, hΦ⟩
    exact ⟨b, u, ⟨a, t, hp, hg⟩, hΦ⟩

theorem canReturn_modify (f : σ → σ) (Φ : Unit → σ → Prop) (s : σ) :
    CanReturn allow (modify f : Program σ A Unit) Φ s ↔ Φ () (f s) := by
  simp [modify, canReturn_act, canReturn_ret]

theorem canReturn_atomically (v : σ → α) (f : σ → σ) (Φ : α → σ → Prop) (s : σ) :
    CanReturn allow (atomically v f : Program σ A α) Φ s ↔ Φ (v s) (f s) := by
  simp [atomically, canReturn_act, canReturn_ret]

/-- A question can return every answer that is allowed. -/
theorem canReturn_query (q : Q) (Φ : A q → σ → Prop) (s : σ) :
    CanReturn allow (query q : Program σ A (A q)) Φ s ↔ ∃ a, allow q s a ∧ Φ a s := by
  simp only [query, canReturn_ask, canReturn_ret]

end CanReturn

/-- The environment can answer so that the program gets to a state where `Φ` holds. -/
def Reaches (allow : (q : Q) → σ → A q → Prop) (p : Program σ A α) (Φ : σ → Prop) (s : σ) : Prop :=
  ∃ p' t, Steps allow (p, s) (p', t) ∧ Φ t

section Reaches

variable {Φ : σ → Prop} {s : σ}

theorem reaches_here {p : Program σ A α} (h : Φ s) : Reaches allow p Φ s := ⟨p, s, .refl, h⟩

/-- What is reached behind a step is reached with it. -/
theorem reaches_act {f : σ → σ} {k : σ → Program σ A α} (h : Reaches allow (k s) Φ (f s)) :
    Reaches allow (.act f k) Φ s := by
  obtain ⟨p', t, hsteps, hΦ⟩ := h
  exact ⟨p', t, .head (.act f k s) hsteps, hΦ⟩

/-- What is reached behind some answer is reached with the question. -/
theorem reaches_ask {q : Q} {k : A q → Program σ A α} {a : A q} (hallow : allow q s a)
    (h : Reaches allow (k a) Φ s) : Reaches allow (.ask q k) Φ s := by
  obtain ⟨p', t, hsteps, hΦ⟩ := h
  exact ⟨p', t, .head (.ask hallow) hsteps, hΦ⟩

/-- What is reached behind a part that has returned. -/
theorem CanReturn.reaches_bind {p : Program σ A α} {g : α → Program σ A β}
    (h : CanReturn allow p (fun a t => Reaches allow (g a) Φ t) s) :
    Reaches allow (p >>= g) Φ s := by
  induction p generalizing s with
  | ret a => exact (canReturn_ret a _ s).mp h
  | act f k ih => exact reaches_act (ih _ ((canReturn_act f k _ s).mp h))
  | ask q k ih =>
      obtain ⟨a, hallow, ha⟩ := (canReturn_ask q k _ s).mp h
      exact reaches_ask hallow (ih a ha)
  | stop =>
      obtain ⟨a, t, hret, -⟩ := h
      exact absurd hret not_returns_stop

/-- The steps of the first part are steps of the whole. -/
theorem Steps.bind {c c' : Program σ A α × σ} (g : α → Program σ A β) (h : Steps allow c c') :
    Steps allow (c.1 >>= g, c.2) (c'.1 >>= g, c'.2) := by
  induction h with
  | refl => exact .refl
  | tail _ hstep ih =>
      apply ih.tail
      cases hstep with
      | act f k s => exact .act f _ s
      | ask hallow => exact .ask hallow

/-- What is reached within the first part. -/
theorem Reaches.bind {p : Program σ A α} {g : α → Program σ A β} (h : Reaches allow p Φ s) :
    Reaches allow (p >>= g) Φ s := by
  obtain ⟨p', t, hsteps, hΦ⟩ := h
  exact ⟨p' >>= g, t, hsteps.bind g, hΦ⟩

end Reaches

/-- The run in which the program returns `a` in the state `t` comes by the state `u`. -/
def Passes (allow : (q : Q) → σ → A q → Prop) (p : Program σ A α) (s : σ) (a : α) (t u : σ) :
    Prop :=
  ∃ p', Steps allow (p, s) (p', u) ∧ Returns allow p' u a t

section Passes

variable {p : Program σ A α} {g : α → Program σ A β} {s t u v : σ} {a : α} {b : β}

/-- A run passes the state that it begins in. -/
theorem passes_start (h : Returns allow p s a t) : Passes allow p s a t s := ⟨p, .refl, h⟩

/-- What the first program passes, both pass. -/
theorem Passes.bind_left (h : Passes allow p s a v u) (hnext : Returns allow (g a) v b t) :
    Passes allow (p >>= g) s b t u := by
  obtain ⟨p', hsteps, hret⟩ := h
  exact ⟨p' >>= g, hsteps.bind g, returns_bind.mpr ⟨a, v, hret, hnext⟩⟩

/-- What the second program passes, both pass. -/
theorem Passes.bind_right (hfirst : Returns allow p s a v) (h : Passes allow (g a) v b t u) :
    Passes allow (p >>= g) s b t u := by
  obtain ⟨p', hsteps, hret⟩ := h
  exact ⟨p', (Steps.bind g hfirst).trans hsteps, hret⟩

end Passes

/-! ## Runs against a given environment are runs -/

section Answers

variable {answer : ε → (q : Q) → A q × ε} {ok : (q : Q) → σ → A q → Bool}

/-- Every run keeps to a condition that is always met. -/
theorem keepsTo_true (p : Program σ A α) (e : ε) (s : σ) :
    p.keepsTo answer (fun _ _ _ => true) e s = true := by
  induction p generalizing e s with
  | ret a => rfl
  | act f k ih => exact ih _ _ _
  | ask q k ih => exact ih _ _ _
  | stop => rfl

/-- A run against an environment that keeps to what is allowed is a return. -/
theorem returns_run (hallow : ∀ q s a, ok q s a = true → allow q s a)
    {p : Program σ A α} {e : ε} {s : σ} {a : α} (hkeeps : p.keepsTo answer ok e s = true)
    (h : (p.run answer e s).1 = some a) : Returns allow p s a (p.run answer e s).2.2 := by
  induction p generalizing e s with
  | ret b => cases h; exact .refl
  | act f k ih => exact returns_act.mpr (ih _ hkeeps h)
  | ask q k ih =>
      obtain ⟨hok, hrest⟩ := Bool.and_eq_true_iff.mp hkeeps
      exact returns_ask.mpr ⟨_, hallow q s _ hok, ih _ hrest h⟩
  | stop => cases h

/-- The first steps of such a run are steps. -/
theorem steps_advance (hallow : ∀ q s a, ok q s a = true → allow q s a) (n : Nat)
    {p : Program σ A α} {e : ε} {s : σ} (hkeeps : p.keepsTo answer ok e s = true) :
    Steps allow (p, s) (p.advance answer n e s) := by
  induction n generalizing p e s with
  | zero => exact .refl
  | succ n ih =>
      cases p with
      | ret a => exact .refl
      | act f k => exact .head (.act f k s) (ih hkeeps)
      | ask q k =>
          obtain ⟨hok, hrest⟩ := Bool.and_eq_true_iff.mp hkeeps
          exact .head (.ask (hallow q s _ hok)) (ih hrest)
      | stop => exact .refl

/-- They are moves if every one of them meets its condition. -/
theorem moves_advance {may : σ → σ → Prop} {mayBool : σ → σ → Bool}
    (hallow : ∀ q s a, ok q s a = true → allow q s a)
    (hmay : ∀ s t, mayBool s t = true → may s t) (n : Nat) {p : Program σ A α} {e : ε} {s : σ}
    (h : p.movesTo answer ok mayBool n e s = true) :
    Moves allow may (p, s) (p.advance answer n e s) := by
  induction n generalizing p e s with
  | zero => exact .refl
  | succ n ih =>
      cases p with
      | ret a => exact .refl
      | act f k =>
          obtain ⟨hstep, hrest⟩ := Bool.and_eq_true_iff.mp h
          exact .head (.act (hmay _ _ hstep)) (ih hrest)
      | ask q k =>
          obtain ⟨hok, hrest⟩ := Bool.and_eq_true_iff.mp h
          exact .head (.ask (hallow q s _ hok)) (ih hrest)
      | stop => exact .refl

/-- Every run meets a condition that is always met. -/
theorem movesTo_anything (n : Nat) (p : Program σ A α) (e : ε) (s : σ) :
    p.movesTo answer (fun _ _ _ => true) (fun _ _ => true) n e s = true := by
  induction n generalizing p e s with
  | zero => rfl
  | succ n ih =>
      cases p with
      | ret | stop => rfl
      | act f k => exact ih (k s) e (f s)
      | ask q k => exact ih (k (answer e q).1) (answer e q).2 s

/-- The step of a scripted run that changes the state. -/
theorem move_advance {may : σ → σ → Prop} {n : Nat} {p : Program σ A α} {e : ε} {s : σ}
    (hact : (p.advance answer n e s).1.isAct = true)
    (hmay : may (p.advance answer n e s).2 (p.advance answer (n + 1) e s).2) :
    Move allow may (p.advance answer n e s) (p.advance answer (n + 1) e s) := by
  induction n generalizing p e s with
  | zero =>
      cases p with
      | act f k => exact .act hmay
      | ret | ask | stop => cases hact
  | succ n ih =>
      cases p with
      | act f k => exact ih hact hmay
      | ask q k => exact ih hact hmay
      | ret | stop => cases hact

end Answers

end Program

end Effect
