import MqttClient.Effect.Logic
import Mathlib.Logic.Function.Basic

/-! # Threads that share a part of their state

Each thread runs a program on its own view of the state. A step of one thread
changes the shared part for all: `adopt t s` is the view `s` after some other
thread has reached the view `t`. The rule at the end is that of rely and
guarantee.
-/

namespace Effect

variable {ι σ Q : Type} {A : Q → Type} {α : Type}

/-- The threads of a system: what each has still to run, and its view. -/
structure Pool (ι : Type) (σ : Type) {Q : Type} (A : Q → Type) (α : Type) where
  prog : ι → Program σ A α
  view : ι → σ

variable [DecidableEq ι]

/-- All views when the thread `i` has reached the view `t`. -/
def spread (adopt : σ → σ → σ) (view : ι → σ) (i : ι) (t : σ) : ι → σ :=
  fun j => if j = i then t else adopt t (view j)

theorem spread_self (adopt : σ → σ → σ) (view : ι → σ) (i : ι) (t : σ) :
    spread adopt view i t i = t := if_pos rfl

theorem spread_of_ne (adopt : σ → σ → σ) (view : ι → σ) {i j : ι} (t : σ) (h : j ≠ i) :
    spread adopt view i t j = adopt t (view j) := if_neg h

/-- One atomic step of one thread. `may view i t`: runs are considered in which
the thread `i` takes the view `t` next. -/
inductive Pool.Step (adopt : σ → σ → σ) (allow : (q : Q) → σ → A q → Prop)
    (may : (ι → σ) → ι → σ → Prop) : Pool ι σ A α → Pool ι σ A α → Prop where
  | act {P : Pool ι σ A α} {i : ι} {f : σ → σ} {k : σ → Program σ A α}
      (hprog : P.prog i = .act f k) (hmay : may P.view i (f (P.view i))) :
      Pool.Step adopt allow may P
        ⟨Function.update P.prog i (k (P.view i)), spread adopt P.view i (f (P.view i))⟩
  | ask {P : Pool ι σ A α} {i : ι} {q : Q} {k : A q → Program σ A α} {a : A q}
      (hprog : P.prog i = .ask q k) (hallow : allow q (P.view i) a) :
      Pool.Step adopt allow may P ⟨Function.update P.prog i (k a), P.view⟩

/-- Finitely many steps of the threads, in any order. -/
abbrev Pool.Steps (adopt : σ → σ → σ) (allow : (q : Q) → σ → A q → Prop)
    (may : (ι → σ) → ι → σ → Prop) : Pool ι σ A α → Pool ι σ A α → Prop :=
  Relation.ReflTransGen (Pool.Step adopt allow may)

/-! ## Runs in a given order of turns -/

section Turns

variable (adopt : σ → σ → σ) (answer : (q : Q) → A q)

/-- The threads after a step of the thread `i`, whose question is answered by `answer`. -/
def Pool.turn (P : Pool ι σ A α) (i : ι) : Pool ι σ A α :=
  match P.prog i with
  | .act f k => ⟨Function.update P.prog i (k (P.view i)), spread adopt P.view i (f (P.view i))⟩
  | .ask q k => ⟨Function.update P.prog i (k (answer q)), P.view⟩
  | _ => P

/-- In these turns every thread takes only views that are `ok`. -/
def Pool.turnsIn (ok : σ → Bool) : List ι → Pool ι σ A α → Bool
  | [], _ => true
  | i :: turns, P =>
      ok ((P.turn adopt answer i).view i) && turnsIn ok turns (P.turn adopt answer i)

variable {adopt answer}

theorem Pool.turn_view_of_act {P : Pool ι σ A α} {i : ι} {f : σ → σ} {k : σ → Program σ A α}
    (h : P.prog i = .act f k) : (P.turn adopt answer i).view i = f (P.view i) := by
  simp only [Pool.turn, h, spread_self]

theorem Pool.steps_turn {allow : (q : Q) → σ → A q → Prop} {may : (ι → σ) → ι → σ → Prop}
    (hallow : ∀ q s, allow q s (answer q)) {P : Pool ι σ A α} {i : ι}
    (hmay : may P.view i ((P.turn adopt answer i).view i)) :
    Pool.Steps adopt allow may P (P.turn adopt answer i) := by
  cases hprog : P.prog i with
  | act f k =>
      rw [Pool.turn_view_of_act hprog] at hmay
      simp only [Pool.turn, hprog]
      exact .single (.act hprog hmay)
  | ask q k =>
      simp only [Pool.turn, hprog]
      exact .single (.ask hprog (hallow _ _))
  | ret a =>
      simp only [Pool.turn, hprog]
      exact .refl
  | stop =>
      simp only [Pool.turn, hprog]
      exact .refl

theorem Pool.steps_turns {allow : (q : Q) → σ → A q → Prop} {may : (ι → σ) → ι → σ → Prop}
    {ok : σ → Bool} (hallow : ∀ q s, allow q s (answer q))
    (hok : ∀ view i t, ok t = true → may view i t) (turns : List ι) {P : Pool ι σ A α}
    (h : P.turnsIn adopt answer ok turns = true) :
    Pool.Steps adopt allow may P (turns.foldl (Pool.turn adopt answer) P) := by
  induction turns generalizing P with
  | nil => exact .refl
  | cons i turns ih =>
      obtain ⟨hfirst, hrest⟩ := Bool.and_eq_true_iff.mp h
      exact (Pool.steps_turn hallow (hok _ _ _ hfirst)).trans (ih hrest)

end Turns

open Program

/-- The specification `Φ` under the discipline `D`, however the others have
changed the view by now. -/
def Stable (D : Discipline σ A) (p : Program σ A α) (Φ : α → σ → Prop) (s : σ) : Prop :=
  ∀ t, D.rely s t → wp D p Φ t

/-- Rely and guarantee: if each step that a thread guarantees keeps the
invariant `J` of the views and is relied on by the others, then `J` and the
specifications hold in every run. -/
theorem Pool.Steps.rely_guarantee {adopt : σ → σ → σ} {may : (ι → σ) → ι → σ → Prop}
    {D : Discipline σ A} {J : (ι → σ) → Prop} {Φ : ι → α → σ → Prop} {P P' : Pool ι σ A α}
    (hrefl : ∀ s, D.rely s s) (htrans : ∀ s t u, D.rely s t → D.rely t u → D.rely s u)
    (hmay : ∀ view i t, J view → may view i t → D.may (view i) t)
    (hstep : ∀ view i t, J view → may view i t → D.guar (view i) t →
      J (spread adopt view i t) ∧ ∀ j, j ≠ i → D.rely (view j) (adopt t (view j)))
    (hJ : J P.view) (hwp : ∀ i, Stable D (P.prog i) (Φ i) (P.view i))
    (hsteps : Pool.Steps adopt D.allow may P P') :
    J P'.view ∧ ∀ i, Stable D (P'.prog i) (Φ i) (P'.view i) := by
  induction hsteps with
  | refl => exact ⟨hJ, hwp⟩
  | @tail P₁ P₂ _ hlast ih =>
      obtain ⟨hJ₁, hwp₁⟩ := ih
      cases hlast with
      | @act i f k hprog hmayi =>
          have hact : wp D (.act f k) (Φ i) (P₁.view i) := hprog ▸ hwp₁ i _ (hrefl _)
          obtain ⟨hguar, hnext⟩ := hact (hmay _ _ _ hJ₁ hmayi)
          obtain ⟨hJ₂, hrely⟩ := hstep _ _ _ hJ₁ hmayi hguar
          refine ⟨hJ₂, fun j => ?_⟩
          by_cases hj : j = i
          · subst hj
            simp only [Function.update_self, spread_self]
            exact hnext
          · simp only [Function.update_of_ne hj, spread_of_ne adopt _ _ hj]
            exact fun t ht => hwp₁ j t (htrans _ _ _ (hrely j hj) ht)
      | @ask i q k a hprog hallow =>
          have hask : wp D (.ask q k) (Φ i) (P₁.view i) := hprog ▸ hwp₁ i _ (hrefl _)
          refine ⟨hJ₁, fun j => ?_⟩
          by_cases hj : j = i
          · subst hj
            simp only [Function.update_self]
            exact hask.2 a hallow
          · simp only [Function.update_of_ne hj]
            exact hwp₁ j

end Effect
