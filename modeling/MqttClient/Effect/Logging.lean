import Mathlib.Algebra.Order.Ring.Int
import Mathlib.Data.List.Basic

/-! # Computations that keep a log

A computation that may fail appends to a log as it goes. What it has appended
by the time it fails stays in the log.
-/

namespace Effect

/-- Computations of an `α` that fail with an `ε` and log `X`s. -/
abbrev Logging (X ε : Type) := ExceptT ε (StateM (List X))

namespace Logging

variable {X ε α β : Type}

/-- How it ends, and the log then, from the log at the start. -/
def runFrom (p : Logging X ε α) (logged : List X) : Except ε α × List X :=
  (ExceptT.run p).run logged

/-- From the empty log. -/
def output (p : Logging X ε α) : Except ε α × List X := p.runFrom []

def log (xs : List X) : Logging X ε Unit := modify (· ++ xs)

/-- One turn of a loop for each element. -/
def forEach (body : β → Logging X ε Unit) : List β → Logging X ε Unit
  | [] => pure ()
  | b :: bs => do
      body b
      forEach body bs

/-- The computation ends like this, and appends just these. -/
def Logs (p : Logging X ε α) (r : Except ε α) (xs : List X) : Prop :=
  ∀ logged, p.runFrom logged = (r, logged ++ xs)

section Rules

variable {p q : Logging X ε α} {g : α → Logging X ε β} {a : α} {e : ε} {r : Except ε α}
  {r' : Except ε β} {xs ys : List X}

theorem logs_pure (a : α) : (pure a : Logging X ε α).Logs (.ok a) [] := by
  intro logged
  rw [List.append_nil]
  rfl

theorem logs_throw (e : ε) : (throw e : Logging X ε α).Logs (.error e) [] := by
  intro logged
  rw [List.append_nil]
  rfl

theorem logs_log (xs : List X) : (log xs : Logging X ε Unit).Logs (.ok ()) xs := fun _ => rfl

theorem runFrom_bind (p : Logging X ε α) (g : α → Logging X ε β) (logged : List X) :
    (p >>= g).runFrom logged =
      match p.runFrom logged with
      | (.ok a, logged) => (g a).runFrom logged
      | (.error e, logged) => (.error e, logged) := by
  change ExceptT.bindCont g (p.runFrom logged).1 (p.runFrom logged).2 = _
  rcases p.runFrom logged with ⟨_ | _, _⟩ <;> rfl

/-- What comes second is logged behind what came first. -/
theorem Logs.bind (hp : p.Logs (.ok a) xs) (hg : (g a).Logs r' ys) :
    (p >>= g).Logs r' (xs ++ ys) := by
  intro logged
  rw [runFrom_bind, hp logged]
  dsimp only
  rw [hg, List.append_assoc]

/-- A failure ends the whole. -/
theorem Logs.bind_error (hp : p.Logs (.error e) xs) : (p >>= g).Logs (.error e) xs := by
  intro logged
  rw [runFrom_bind, hp logged]

/-- What is made of the result is not logged. -/
theorem Logs.map (hp : p.Logs r xs) (f : α → β) :
    (p >>= fun a => pure (f a)).Logs (r.map f) xs := by
  cases r with
  | error e => exact hp.bind_error
  | ok a =>
      have hlogs : (p >>= fun a => pure (f a)).Logs (.ok (f a)) (xs ++ []) :=
        hp.bind (logs_pure (f a))
      rw [List.append_nil] at hlogs
      exact hlogs

theorem Logs.ite {c : Prop} [Decidable c] {s : Except ε α} (hp : p.Logs r xs) (hq : q.Logs s ys) :
    (if c then p else q).Logs (if c then r else s) (if c then xs else ys) := by
  split
  · exact hp
  · exact hq

theorem Logs.output_eq (h : p.Logs r xs) : p.output = (r, xs) := h []

theorem logs_forEach {body : β → Logging X ε Unit} {entries : β → List X}
    (h : ∀ b, (body b).Logs (.ok ()) (entries b)) (bs : List β) :
    (forEach body bs).Logs (.ok ()) (bs.flatMap entries) := by
  induction bs with
  | nil => exact logs_pure ()
  | cons b bs ih =>
      rw [List.flatMap_cons]
      exact (h b).bind ih

end Rules

end Logging

end Effect
