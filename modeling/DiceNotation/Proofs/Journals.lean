import DiceNotation.Proofs.Dealing
import DiceNotation.Proofs.TermByTerm
import DiceNotation.Proofs.Writing
import Mathlib.Order.Bounds.Defs

/-!
# What the Journal Says

The journal of an expression is an account of what happened to it (`Account`): one note
that it was refused; or one that it was read, one for each term that was rolled completely,
and one for the tally, unless the roller ran out. Nothing else is written down, and every
note agrees with the answer. With a script the faces that it has left tell how many terms
are written down (`isGreatest_fitting_of_script`). Main statement: `journal_tells`.
-/

namespace DiceNotation

variable {σ : Type}

/-! ## §1 Notes -/

/-- An event as it is written down. -/
structure Note where
  level : Level
  message : String
  /-- The particulars, each with its name. -/
  fields : List (String × String)
deriving DecidableEq

namespace Note

/-- An expression has this normal form and this many terms. -/
def parsed (text : String) (terms : Nat) : Note :=
  ⟨.debug, "parsed dice expression", [("expression", text), ("terms", toString terms)]⟩

/-- A term was rolled completely. -/
def rolled (o : Outcome) : Note :=
  ⟨.trace, "rolled dice term", [("outcome", o.text)]⟩

/-- All terms of an expression were rolled. -/
def evaluated (t : Tally) : Note :=
  ⟨.debug, "evaluated dice expression",
    [("expression", t.expression), ("total", Score.text t.total)]⟩

/-- An expression of this normal form was refused: there are no terms, there is an error of
syntax, or a number is out of range. -/
def refused (text : String) : NotationError → Note
  | .noTerm _ => ⟨.debug, "no dice terms found in expression", [("expression", text)]⟩
  | .malformed _ errors =>
    ⟨.debug, "expression has syntax errors",
      [("expression", text), ("errors", toString errors.length)]⟩
  | error =>
    ⟨.debug, "rejected dice expression", [("expression", text), ("err", error.message)]⟩

end Note

/-- The note for an event. -/
def Event.note (e : Event) : Note :=
  ⟨e.level, e.message, e.fields⟩

theorem note_event_of_error {grammar : Grammar} {text : String} {error : NotationError}
    (h : grammar.parse text = .error error) :
    (grammar.event text).note = .refused (Text.normalize text) error := by
  rw [Grammar.event, h]
  cases error <;> rfl

theorem map_note_rolled (outcomes : List Outcome) :
    (outcomes.map Event.rolled).map Event.note = outcomes.map Note.rolled := by
  rw [List.map_map]
  rfl

/-! ## §2 Accounts -/

/-- What is written down about an expression that a roller was given in some state, by the
answer and the state that it left. -/
inductive Account (r : Roller σ) (grammar : Grammar) (text : String) (s : σ) :
    Option (Except NotationError Tally) → σ → List Note → Prop where
  /-- The expression was refused, and nothing was rolled. -/
  | refused {error : NotationError} : grammar.parse text = .error error →
      Account r grammar text s (some (.error error)) s [.refused (Text.normalize text) error]
  /-- All terms were rolled. -/
  | finished {terms : List Term} {outcomes : List Outcome} {s' : σ} :
      grammar.parse text = .ok terms → r.Rolls s terms outcomes s' →
        Account r grammar text s (some (.ok ⟨text, outcomes⟩)) s'
          (.parsed (Text.normalize text) terms.length ::
            (outcomes.map .rolled ++ [.evaluated ⟨text, outcomes⟩]))
  /-- The roller ran out at one of the terms. -/
  | ranOut {terms : List Term} {outcomes : List Outcome} {s' : σ} :
      grammar.parse text = .ok terms → r.RunsOut s terms outcomes s' →
        Account r grammar text s none s'
          (.parsed (Text.normalize text) terms.length :: outcomes.map .rolled)

theorem account_rollText (r : Roller σ) (grammar : Grammar) (text : String) (s : σ) :
    Account r grammar text s (r.rollText grammar text s).answer (r.rollText grammar text s).state
      ((r.rollText grammar text s).events.map Event.note) := by
  cases hparse : grammar.parse text with
  | error error =>
    rw [r.rollText_of_parse_eq_error hparse, List.map_singleton, note_event_of_error hparse]
    exact .refused hparse
  | ok terms =>
    obtain ⟨outcomes, s', hrolls | hout⟩ := r.rolls_or_runsOut s terms
    · rw [hrolls.rollText_eq hparse, List.map_cons, List.map_append, map_note_rolled]
      exact .finished hparse hrolls
    · rw [hout.rollText_eq hparse, List.map_cons, map_note_rolled]
      exact .ranOut hparse hout

/-! ## §3 Terms that are written down -/

/-- The number of terms that are written down. -/
def rolledNotes (notes : List Note) : Nat :=
  notes.countP fun note => note.level = .trace

theorem rolledNotes_map_rolled (outcomes : List Outcome) :
    rolledNotes (outcomes.map Note.rolled) = outcomes.length := by
  simp [rolledNotes, List.countP_map, Function.comp_def, Note.rolled]

/-- The terms that are written down are those that were rolled. -/
theorem Account.exists_outcomes {r : Roller σ} {grammar : Grammar} {text : String} {s s' : σ}
    {answer : Option (Except NotationError Tally)} {notes : List Note} {terms : List Term}
    (h : Account r grammar text s answer s' notes) (hparse : grammar.parse text = .ok terms) :
    ∃ outcomes, rolledNotes notes = outcomes.length ∧
      (r.Rolls s terms outcomes s' ∨ r.RunsOut s terms outcomes s') := by
  cases h with
  | refused herror =>
    rw [hparse] at herror
    cases herror
  | @finished terms' outcomes _ hparse' hrolls =>
    obtain rfl := Except.ok.inj (hparse.symm.trans hparse')
    refine ⟨outcomes, ?_, .inl hrolls⟩
    rw [← rolledNotes_map_rolled]
    simp [rolledNotes, Note.parsed, Note.evaluated]
  | @ranOut terms' outcomes _ hparse' hout =>
    obtain rfl := Except.ok.inj (hparse.symm.trans hparse')
    refine ⟨outcomes, ?_, .inr hout⟩
    rw [← rolledNotes_map_rolled]
    simp [rolledNotes, Note.parsed]

/-! ## §4 Scripts -/

/-- The numbers of terms, counted from the first one, for whose dice there are enough faces. -/
def fitting (terms : List Term) (faces : Nat) : Set Nat :=
  {k | k ≤ terms.length ∧ diceCount (terms.take k) ≤ faces}

theorem mem_fitting (terms : List Term) (faces k : Nat) :
    k ∈ fitting terms faces ↔ k ≤ terms.length ∧ diceCount (terms.take k) ≤ faces :=
  Iff.rfl

theorem zero_mem_fitting (terms : List Term) (faces : Nat) : 0 ∈ fitting terms faces :=
  ⟨Nat.zero_le _, Nat.zero_le _⟩

/-- Behind a term that fits go as many as fit into the faces that it leaves. -/
theorem succ_mem_fitting_cons {t : Term} {ts : List Term} {faces : Nat} (k : Nat)
    (ht : t.count ≤ faces) : k + 1 ∈ fitting (t :: ts) faces ↔ k ∈ fitting ts (faces - t.count) := by
  rw [mem_fitting, mem_fitting, List.length_cons, List.take_succ_cons, diceCount_cons]
  omega

theorem isGreatest_fitting_cons {t : Term} {ts : List Term} {faces k : Nat} (ht : t.count ≤ faces)
    (h : IsGreatest (fitting ts (faces - t.count)) k) :
    IsGreatest (fitting (t :: ts) faces) (k + 1) := by
  obtain ⟨hmem, hupper⟩ := h
  refine ⟨(succ_mem_fitting_cons k ht).mpr hmem, fun j hj => ?_⟩
  cases j with
  | zero => exact Nat.zero_le _
  | succ j => exact Nat.succ_le_succ (hupper ((succ_mem_fitting_cons j ht).mp hj))

/-- Where the first term does not fit, none does. -/
theorem isGreatest_fitting_zero {t : Term} (ts : List Term) {faces : Nat} (ht : faces < t.count) :
    IsGreatest (fitting (t :: ts) faces) 0 := by
  refine ⟨zero_mem_fitting _ _, fun j hj => ?_⟩
  cases j with
  | zero => exact Nat.le_refl _
  | succ j =>
    obtain ⟨-, hdice⟩ := hj
    rw [List.take_succ_cons, diceCount_cons] at hdice
    omega

namespace Roller

variable {faces left : List Nat} {t : Term} {o : Outcome} {terms : List Term}
  {outcomes : List Outcome}

theorem dealing_roll_eq_some (h : dealing.roll t faces = (some o, left)) :
    t.count ≤ faces.length ∧ left.length = faces.length - t.count := by
  rw [dealing_roll] at h
  obtain ⟨houtcome, rfl⟩ := Prod.mk.inj h
  split at houtcome
  · next hcount => exact ⟨hcount, List.length_drop⟩
  · cases houtcome

theorem dealing_roll_eq_none (h : dealing.roll t faces = (none, left)) :
    faces.length < t.count := by
  rw [dealing_roll] at h
  obtain ⟨houtcome, -⟩ := Prod.mk.inj h
  split at houtcome
  · cases houtcome
  · next hcount => exact Nat.lt_of_not_le hcount

/-- One more term fits than behind a term that is rolled. -/
theorem isGreatest_fitting_of_roll {k : Nat} (h : dealing.roll t faces = (some o, left))
    (hmore : IsGreatest (fitting terms left.length) k) :
    IsGreatest (fitting (t :: terms) faces.length) (k + 1) := by
  obtain ⟨hcount, hleft⟩ := dealing_roll_eq_some h
  rw [hleft] at hmore
  exact isGreatest_fitting_cons hcount hmore

theorem Rolls.isGreatest_fitting (h : dealing.Rolls faces terms outcomes left) :
    IsGreatest (fitting terms faces.length) outcomes.length := by
  induction h with
  | nil => exact ⟨zero_mem_fitting _ _, fun _ hj => hj.1⟩
  | cons hroll _ ih => exact isGreatest_fitting_of_roll hroll ih

theorem RunsOut.isGreatest_fitting (h : dealing.RunsOut faces terms outcomes left) :
    IsGreatest (fitting terms faces.length) outcomes.length := by
  induction h with
  | here ts hroll => exact isGreatest_fitting_zero ts (dealing_roll_eq_none hroll)
  | later hroll _ ih => exact isGreatest_fitting_of_roll hroll ih

/-- A script deals the faces that it has left. -/
theorem scripted_simulates_dealing : scripted.Simulates dealing Script.Holds :=
  fun _ _ _ h => h.next

end Roller

/-- With a script as many terms are written down as there are faces for. -/
theorem isGreatest_fitting_of_script {script : Script} {faces : List Nat} (h : script.Holds faces)
    {grammar : Grammar} {text : String} {terms : List Term}
    (hparse : grammar.parse text = .ok terms) :
    IsGreatest (fitting terms faces.length)
      (rolledNotes ((Roller.scripted.rollText grammar text script).events.map Event.note)) := by
  -- Whatever the script does, the list that it deals does, too
  rw [(Roller.scripted_simulates_dealing.rollText grammar text h).events]
  obtain ⟨outcomes, hcount, hrolls | hout⟩ :=
    (account_rollText Roller.dealing grammar text faces).exists_outcomes hparse
  · rw [hcount]
    exact hrolls.isGreatest_fitting
  · rw [hcount]
    exact hout.isGreatest_fitting

/-- **The journal tells exactly what happened.** Whatever roller an expression is given to, the
journal is the account of its answer. A script with some faces left has notes for as many terms,
from the first one on, as there are faces for. -/
theorem journal_tells (grammar : Grammar) (text : String) :
    (∀ (σ : Type) (r : Roller σ) (s : σ),
      Account r grammar text s (r.rollText grammar text s).answer (r.rollText grammar text s).state
        ((r.rollText grammar text s).events.map Event.note)) ∧
    ∀ (script : Script) (faces : List Nat) (terms : List Term),
      script.Holds faces → grammar.parse text = .ok terms →
        IsGreatest {k | k ≤ terms.length ∧ diceCount (terms.take k) ≤ faces.length}
          (rolledNotes
            ((Roller.scripted.rollText grammar text script).events.map Event.note)) := by
  refine ⟨fun σ r s => account_rollText r grammar text s, ?_⟩
  intro script faces terms hfaces hparse
  exact isGreatest_fitting_of_script hfaces hparse

/-- Three faces are enough for the first of two terms with two dice each. -/
theorem journal_tells_three_faces :
    let terms : List Term := [⟨2, 6, 0, by decide, by decide⟩, ⟨2, 4, 0, by decide, by decide⟩]
    let run := Roller.scripted.rollText .strict "2d6+2d4" (.once [4, 5, 1])
    rolledNotes (run.events.map Event.note) = 1 ∧
      IsGreatest {k | k ≤ terms.length ∧ diceCount (terms.take k) ≤ [4, 5, 1].length}
        (rolledNotes (run.events.map Event.note)) := by
  intro terms run
  have hparse : Grammar.strict.parse (canonicalText terms) = .ok terms :=
    parse_canonicalText (List.cons_ne_nil _ _) .strict
  have htext : canonicalText terms = "2d6+2d4" := by decide +kernel
  rw [htext] at hparse
  refine ⟨by decide +kernel, ?_⟩
  exact (journal_tells .strict "2d6+2d4").2 (.once [4, 5, 1]) [4, 5, 1] terms
    (.untouched [4, 5, 1]) hparse

end DiceNotation
