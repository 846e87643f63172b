import Mathlib.Algebra.Order.Ring.Int
import Mathlib.Data.List.Basic

/-! # Patterns over levels

A pattern is a list of levels, each of which asks for a level of its own or is
a wildcard. A wildcard may stand for any level; some matchers only let it stand
for a level that is not blank.
-/

namespace Text

/-- A level of a pattern. -/
inductive Pattern (α : Type) where
  | exact (a : α)
  /-- Any one level. -/
  | single
  /-- The end of the list and whatever is left of it. -/
  | multi

variable {α : Type}

/-- A list of levels matches a pattern; `multi` can only come last. -/
inductive Matches : List (Pattern α) → List α → Prop
  | nil : Matches [] []
  | exact (a : α) {ps : List (Pattern α)} {as : List α} (h : Matches ps as) :
      Matches (.exact a :: ps) (a :: as)
  | single (a : α) {ps : List (Pattern α)} {as : List α} (h : Matches ps as) :
      Matches (.single :: ps) (a :: as)
  | multi (as : List α) : Matches [.multi] as

/-- Level by level, some wildcard stands over a blank level, or over the end. -/
inductive OverBlank (blank : α) : List (Pattern α) → List α → Prop
  | single (ps : List (Pattern α)) (as : List α) : OverBlank blank (.single :: ps) (blank :: as)
  | multi (ps : List (Pattern α)) (as : List α) : OverBlank blank (.multi :: ps) (blank :: as)
  | ended (ps : List (Pattern α)) : OverBlank blank (.multi :: ps) []
  | later (p : Pattern α) (a : α) {ps : List (Pattern α)} {as : List α}
      (h : OverBlank blank ps as) : OverBlank blank (p :: ps) (a :: as)

theorem not_overBlank_nil {blank : α} {as : List α} : ¬ OverBlank blank [] as := nofun

/-- The matcher whose wildcards do not stand for blank levels. -/
def matchesFilled [DecidableEq α] (blank : α) : List (Pattern α) → List α → Bool
  | [], as => as.isEmpty
  | .exact a :: ps, b :: as => a = b && matchesFilled blank ps as
  | .single :: ps, b :: as => b ≠ blank && matchesFilled blank ps as
  | [.multi], b :: _ => b ≠ blank
  | _, _ => false

/-- It misses just the matches in which a wildcard stands over a blank. -/
theorem matchesFilled_iff [DecidableEq α] {blank : α} {ps : List (Pattern α)} {as : List α} :
    matchesFilled blank ps as = true ↔ Matches ps as ∧ ¬ OverBlank blank ps as := by
  induction ps generalizing as with
  | nil =>
      cases as with
      | nil => exact iff_of_true rfl ⟨.nil, not_overBlank_nil⟩
      | cons b as => exact iff_of_false nofun nofun
  | cons p ps ih =>
      cases as with
      | nil =>
          refine iff_of_false ?_ ?_
          · cases p <;> cases ps <;> exact nofun
          · rintro ⟨hmatch, hover⟩
            cases hmatch
            exact hover (.ended [])
      | cons b as =>
          cases p with
          | exact a =>
              rw [matchesFilled, Bool.and_eq_true, decide_eq_true_eq, ih]
              constructor
              · rintro ⟨rfl, hmatch, hover⟩
                refine ⟨.exact a hmatch, fun h => ?_⟩
                cases h with
                | later _ _ h => exact hover h
              · rintro ⟨hmatch, hover⟩
                cases hmatch with
                | exact _ hmatch => exact ⟨rfl, hmatch, fun h => hover (.later _ _ h)⟩
          | single =>
              -- a wildcard is exact unless it stands over the blank level
              rw [matchesFilled, Bool.and_eq_true, decide_eq_true_eq, ih]
              constructor
              · rintro ⟨hblank, hmatch, hover⟩
                refine ⟨.single b hmatch, fun h => ?_⟩
                cases h with
                | single => exact hblank rfl
                | later _ _ h => exact hover h
              · rintro ⟨hmatch, hover⟩
                cases hmatch with
                | single _ hmatch =>
                    refine ⟨?_, hmatch, fun h => hover (.later _ _ h)⟩
                    rintro rfl
                    exact hover (.single ps as)
          | multi =>
              cases ps with
              | nil =>
                  rw [matchesFilled, decide_eq_true_eq]
                  constructor
                  · intro hblank
                    refine ⟨.multi _, fun h => ?_⟩
                    cases h with
                    | multi => exact hblank rfl
                    | later _ _ h => exact not_overBlank_nil h
                  · rintro ⟨-, hover⟩ rfl
                    exact hover (.multi [] as)
              | cons p ps => exact iff_of_false nofun nofun

end Text
