import DiceNotation.Rolling

/-!
# Rollers That Show the Same

One roller simulates another if, from related states, every die shows the same face and
leaves related states again. Whatever the two are used for then has the same answer and
the same journal: dice, a term, the terms of an expression, an expression that is still
to be read (`Simulates.rollText`).
-/

namespace DiceNotation

variable {σ τ : Type}

/-- Runs with the same answer and the same journal that leave related states. -/
structure Run.Matches {α : Type} (R : σ → τ → Prop) (run : Run σ α) (run' : Run τ α) : Prop where
  answer : run.answer = run'.answer
  events : run.events = run'.events
  state : R run.state run'.state

namespace Roller

/-- From related states every die shows the same and leaves related states. -/
def Simulates (r : Roller σ) (r' : Roller τ) (R : σ → τ → Prop) : Prop :=
  ∀ sides s t, R s t →
    (r.die sides s).1 = (r'.die sides t).1 ∧ R (r.die sides s).2 (r'.die sides t).2

namespace Simulates

variable {r : Roller σ} {r' : Roller τ} {R : σ → τ → Prop}

theorem dice (h : r.Simulates r' R) (sides n : Nat) {s : σ} {t : τ} (hst : R s t) :
    (r.dice sides n s).1 = (r'.dice sides n t).1 ∧
      R (r.dice sides n s).2 (r'.dice sides n t).2 := by
  induction n generalizing s t with
  | zero => exact ⟨rfl, hst⟩
  | succ n ih =>
    obtain ⟨hface, hstate⟩ := h sides s t hst
    rw [Roller.dice, Roller.dice]
    generalize r.die sides s = shown at hface hstate
    generalize r'.die sides t = shown' at hface hstate
    obtain ⟨face, s'⟩ := shown
    obtain ⟨face', t'⟩ := shown'
    obtain rfl : face = face' := hface
    cases face with
    | none => exact ⟨rfl, hstate⟩
    | some face =>
      obtain ⟨hfaces, hstate⟩ := ih hstate
      exact ⟨congrArg (Option.map (face :: ·)) hfaces, hstate⟩

theorem roll (h : r.Simulates r' R) (term : Term) {s : σ} {t : τ} (hst : R s t) :
    (r.roll term s).1 = (r'.roll term t).1 ∧ R (r.roll term s).2 (r'.roll term t).2 := by
  obtain ⟨hfaces, hstate⟩ := h.dice term.sides term.count hst
  exact ⟨congrArg (Option.map (Outcome.mk term)) hfaces, hstate⟩

theorem rollTerms (h : r.Simulates r' R) (terms : List Term) {s : σ} {t : τ} (hst : R s t) :
    (r.rollTerms terms s).Matches R (r'.rollTerms terms t) := by
  induction terms generalizing s t with
  | nil => exact ⟨rfl, rfl, hst⟩
  | cons term terms ih =>
    obtain ⟨houtcome, hstate⟩ := h.roll term hst
    rw [Roller.rollTerms, Roller.rollTerms]
    generalize r.roll term s = rolled at houtcome hstate
    generalize r'.roll term t = rolled' at houtcome hstate
    obtain ⟨outcome, s'⟩ := rolled
    obtain ⟨outcome', t'⟩ := rolled'
    obtain rfl : outcome = outcome' := houtcome
    cases outcome with
    | none => exact ⟨rfl, rfl, hstate⟩
    | some outcome =>
      -- The terms behind it are rolled from related states
      obtain ⟨hanswer, hevents, hstate⟩ := ih hstate
      exact ⟨congrArg (Option.map (outcome :: ·)) hanswer,
        congrArg (Event.rolled outcome :: ·) hevents, hstate⟩

theorem evaluateAs (h : r.Simulates r' R) (expression : String) (terms : List Term) {s : σ} {t : τ}
    (hst : R s t) :
    (r.evaluateAs expression terms s).Matches R (r'.evaluateAs expression terms t) := by
  have hrun := h.rollTerms terms hst
  rw [Roller.evaluateAs, Roller.evaluateAs]
  generalize r.rollTerms terms s = run at hrun
  generalize r'.rollTerms terms t = run' at hrun
  obtain ⟨answer, events, s'⟩ := run
  obtain ⟨answer', events', t'⟩ := run'
  obtain ⟨rfl, rfl, hstate⟩ := hrun
  cases answer with
  | none => exact ⟨rfl, rfl, hstate⟩
  | some outcomes => exact ⟨rfl, rfl, hstate⟩

theorem evaluate (h : r.Simulates r' R) (terms : List Term) {s : σ} {t : τ} (hst : R s t) :
    (r.evaluate terms s).Matches R (r'.evaluate terms t) :=
  h.evaluateAs (canonicalText terms) terms hst

theorem rollText (h : r.Simulates r' R) (grammar : Grammar) (expression : String) {s : σ} {t : τ}
    (hst : R s t) :
    (r.rollText grammar expression s).Matches R (r'.rollText grammar expression t) := by
  cases hparse : grammar.parse expression with
  | error error =>
    rw [r.rollText_of_parse_eq_error hparse, r'.rollText_of_parse_eq_error hparse]
    exact ⟨rfl, rfl, hst⟩
  | ok terms =>
    obtain ⟨hanswer, hevents, hstate⟩ := h.evaluateAs expression terms hst
    rw [r.rollText_of_parse_eq_ok hparse, r'.rollText_of_parse_eq_ok hparse, hanswer, hevents]
    exact ⟨rfl, rfl, hstate⟩

end Simulates

end Roller

end DiceNotation
