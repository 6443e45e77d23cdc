import DiceNotation.Journal
import DiceNotation.Roller.Generator

/-!
# Rolling Expressions

Terms are rolled in order with one roller, and the journal is kept on the way. If
the roller runs out there is no tally, but the journal has every term that was
rolled completely. An expression that is refused takes nothing from the roller.

With an unfailing roller there is always an answer (`Unfailing.isSome_rollText`).
-/

namespace DiceNotation

/-! ## §1 Runs -/

/-- What a roller was used for: an answer unless the roller ran out, the journal of it,
and the state that it left. -/
structure Run (σ α : Type) where
  answer : Option α
  events : List Event
  state : σ

namespace Roller

variable {σ : Type}

/-- Rolls every term in order. -/
def rollTerms (r : Roller σ) : List Term → σ → Run σ (List Outcome)
  | [], s => ⟨some [], [], s⟩
  | t :: ts, s =>
    match r.roll t s with
    | (none, s) => ⟨none, [], s⟩
    | (some outcome, s) =>
      let run := r.rollTerms ts s
      ⟨run.answer.map (outcome :: ·), .rolled outcome :: run.events, run.state⟩

/-- Rolls every term in order on behalf of an expression. -/
def evaluateAs (r : Roller σ) (expression : String) (terms : List Term) (s : σ) :
    Run σ Tally :=
  let run := r.rollTerms terms s
  match run.answer with
  | none => ⟨none, run.events, run.state⟩
  | some outcomes =>
    let tally : Tally := ⟨expression, outcomes⟩
    ⟨some tally, run.events ++ [.evaluated expression tally.total], run.state⟩

/-- Rolls every term in order; their canonical notation is the expression. -/
def evaluate (r : Roller σ) (terms : List Term) (s : σ) : Run σ Tally :=
  r.evaluateAs (canonicalText terms) terms s

/-- Reads an expression and rolls its terms. -/
def rollText (r : Roller σ) (grammar : Grammar) (expression : String) (s : σ) :
    Run σ (Except NotationError Tally) :=
  match grammar.parse expression with
  | .error error => ⟨some (.error error), [grammar.event expression], s⟩
  | .ok terms =>
    let run := r.evaluateAs expression terms s
    ⟨run.answer.map .ok, grammar.event expression :: run.events, run.state⟩

/-- An expression that is refused takes nothing from the roller. -/
theorem rollText_of_parse_eq_error (r : Roller σ) {grammar : Grammar} {expression : String}
    {error : NotationError} (h : grammar.parse expression = .error error) (s : σ) :
    r.rollText grammar expression s = ⟨some (.error error), [grammar.event expression], s⟩ := by
  rw [rollText, h]

/-- The terms of an expression that is read are rolled on its behalf. -/
theorem rollText_of_parse_eq_ok (r : Roller σ) {grammar : Grammar} {expression : String}
    {terms : List Term} (h : grammar.parse expression = .ok terms) (s : σ) :
    r.rollText grammar expression s =
      ⟨(r.evaluateAs expression terms s).answer.map .ok,
        grammar.event expression :: (r.evaluateAs expression terms s).events,
        (r.evaluateAs expression terms s).state⟩ := by
  rw [rollText, h]

/-! ## §2 Rollers that never run out -/

/-- An unfailing roller rolls all terms. -/
theorem Unfailing.isSome_rollTerms {r : Roller σ} (h : r.Unfailing) (terms : List Term) (s : σ) :
    (r.rollTerms terms s).answer.isSome := by
  induction terms generalizing s with
  | nil => rfl
  | cons t ts ih =>
    rw [rollTerms]
    split
    · next h' => exact absurd (h.isSome_roll t s) (by rw [h']; exact Bool.false_ne_true)
    · next s' _ => exact (Option.isSome_map ..).trans (ih s')

/-- An unfailing roller has a tally for every list of terms. -/
theorem Unfailing.isSome_evaluateAs {r : Roller σ} (h : r.Unfailing) (expression : String)
    (terms : List Term) (s : σ) : (r.evaluateAs expression terms s).answer.isSome := by
  rw [evaluateAs]
  split
  · next h' => exact absurd (h.isSome_rollTerms terms s) (by rw [h']; exact Bool.false_ne_true)
  · rfl

/-- An unfailing roller has an answer for every expression. -/
theorem Unfailing.isSome_rollText {r : Roller σ} (h : r.Unfailing) (grammar : Grammar)
    (expression : String) (s : σ) : (r.rollText grammar expression s).answer.isSome := by
  rw [rollText]
  split
  · rfl
  · next terms _ => exact (Option.isSome_map ..).trans (h.isSome_evaluateAs expression terms s)

end Roller

/-- Reads an expression and rolls it with a generator of some seed. -/
def rollSeeded (grammar : Grammar) (seed : UInt64) (expression : String) :
    Except NotationError Tally :=
  (Roller.seeded.rollText grammar expression ⟨seed⟩).answer.get
    (Roller.seeded_unfailing.isSome_rollText grammar expression ⟨seed⟩)

end DiceNotation
