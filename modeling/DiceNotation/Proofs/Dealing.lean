import DiceNotation.Proofs.Simulation
import DiceNotation.Roller.Source
import Mathlib.Algebra.GroupWithZero.Nat

/-!
# Faces Dealt from a List

Dealing from a list is the plainest way to show faces: dice take them from its front, and
dice that are more than the faces left take them all. What terms get is said without
rolling (`deal`, `Roller.dealing_evaluateAs`).

A script that shows its faces once deals the faces that it has left
(`Roller.ofSource_simulates_dealing`). One of them may have been taken ahead of time to
see that it is there; it is kept for the next die, so it is still left (`Script.Holds`).
-/

namespace DiceNotation

/-! ## §1 Dealing from a list -/

/-- Deals the faces of a list. -/
def Roller.dealing : Roller (List Nat) where
  die _ faces := (faces.head?, faces.tail)

/-- The number of dice of all terms. -/
def diceCount (terms : List Term) : Nat :=
  (terms.map Term.count).sum

/-- The outcomes of terms whose dice show the faces of a list. -/
def deal : List Term → List Nat → List Outcome
  | [], _ => []
  | t :: ts, faces => ⟨t, faces.take t.count⟩ :: deal ts (faces.drop t.count)

theorem diceCount_cons (t : Term) (ts : List Term) :
    diceCount (t :: ts) = t.count + diceCount ts := by
  simp [diceCount]

theorem map_term_deal (terms : List Term) (faces : List Nat) :
    (deal terms faces).map Outcome.term = terms := by
  induction terms generalizing faces with
  | nil => rfl
  | cons t ts ih => simp [deal, ih]

/-- Dealing shows the faces at the front of the list in order. -/
theorem flatMap_faces_deal (terms : List Term) (faces : List Nat) :
    (deal terms faces).flatMap Outcome.faces = faces.take (diceCount terms) := by
  induction terms generalizing faces with
  | nil => simp [deal, diceCount]
  | cons t ts ih =>
    rw [deal, List.flatMap_cons, ih, diceCount_cons, List.take_add]

theorem length_faces_of_mem_deal {terms : List Term} {faces : List Nat}
    (h : diceCount terms ≤ faces.length) {o : Outcome} (ho : o ∈ deal terms faces) :
    o.faces.length = o.term.count := by
  induction terms generalizing faces with
  | nil => simp [deal] at ho
  | cons t ts ih =>
    rw [diceCount_cons] at h
    rw [deal, List.mem_cons] at ho
    rcases ho with rfl | ho
    · simp only [List.length_take]
      omega
    · apply ih _ ho
      rw [List.length_drop]
      omega

namespace Roller

theorem dealing_dice (sides n : Nat) (faces : List Nat) :
    dealing.dice sides n faces =
      (if n ≤ faces.length then some (faces.take n) else none, faces.drop n) := by
  induction n generalizing faces with
  | zero => simp [dice]
  | succ n ih =>
    cases faces with
    | nil => simp [dice, dealing]
    | cons face faces =>
      have hdice : dealing.dice sides (n + 1) (face :: faces) =
          ((dealing.dice sides n faces).1.map (face :: ·), (dealing.dice sides n faces).2) := rfl
      rw [hdice, ih]
      by_cases h : n ≤ faces.length <;> simp [h]

theorem dealing_roll (t : Term) (faces : List Nat) :
    dealing.roll t faces =
      (if t.count ≤ faces.length then some ⟨t, faces.take t.count⟩ else none,
        faces.drop t.count) := by
  rw [roll, dealing_dice]
  by_cases h : t.count ≤ faces.length <;> simp [h]

/-- The terms are rolled iff there is a face for each of their dice; faces are taken in either
case, all of them if they are too few. -/
theorem dealing_rollTerms (terms : List Term) (faces : List Nat) :
    (dealing.rollTerms terms faces).answer =
        (if diceCount terms ≤ faces.length then some (deal terms faces) else none) ∧
      (dealing.rollTerms terms faces).state = faces.drop (diceCount terms) := by
  induction terms generalizing faces with
  | nil => exact ⟨rfl, rfl⟩
  | cons t ts ih =>
    rw [rollTerms, dealing_roll, diceCount_cons]
    by_cases h : t.count ≤ faces.length
    · -- The other terms get what this one leaves
      obtain ⟨hanswer, hstate⟩ := ih (faces.drop t.count)
      have hmore : diceCount ts ≤ (faces.drop t.count).length ↔
          t.count + diceCount ts ≤ faces.length := by
        rw [List.length_drop]
        omega
      simp only [if_pos h, hanswer, hstate, hmore, List.drop_drop, and_true]
      split <;> rfl
    · -- This one takes what there is, and nothing is left to take
      have hnone : faces.drop t.count = [] := List.drop_eq_nil_of_le (by omega)
      have hall : faces.drop (t.count + diceCount ts) = [] := List.drop_eq_nil_of_le (by omega)
      have hfew : ¬ t.count + diceCount ts ≤ faces.length := by omega
      simp only [if_neg h, if_neg hfew, hnone, hall, and_self]

theorem dealing_evaluateAs (expression : String) (terms : List Term) (faces : List Nat) :
    (dealing.evaluateAs expression terms faces).answer =
        (if diceCount terms ≤ faces.length then some ⟨expression, deal terms faces⟩ else none) ∧
      (dealing.evaluateAs expression terms faces).state = faces.drop (diceCount terms) := by
  obtain ⟨hanswer, hstate⟩ := dealing_rollTerms terms faces
  rw [evaluateAs, hanswer]
  by_cases h : diceCount terms ≤ faces.length
  · simp only [if_pos h, hstate, and_self]
  · simp only [if_neg h, hstate, and_self]

end Roller

/-! ## §2 The faces that a script has left -/

/-- A script that has the faces of a list left, each to be shown once. What was found by looking
ahead comes first. -/
inductive Script.Holds : Script → List Nat → Prop where
  | untouched (faces : List Nat) : Holds ⟨faces, [], none⟩ faces
  | kept (face : Nat) (faces : List Nat) : Holds ⟨faces, [], some (some face)⟩ (face :: faces)
  | ended : Holds ⟨[], [], some none⟩ []

namespace Script.Holds

variable {script : Script} {faces : List Nat}

theorem next (h : script.Holds faces) :
    script.next.1 = faces.head? ∧ script.next.2.Holds faces.tail := by
  cases h with
  | untouched =>
    cases faces with
    | nil => exact ⟨rfl, .untouched []⟩
    | cons face faces => exact ⟨rfl, .untouched faces⟩
  | kept face faces => exact ⟨rfl, .untouched faces⟩
  | ended => exact ⟨rfl, .untouched []⟩

/-- Asking for a face takes none. -/
theorem canRoll (h : script.Holds faces) :
    script.canRoll.1 = !faces.isEmpty ∧ script.canRoll.2.Holds faces := by
  cases h with
  | untouched =>
    cases faces with
    | nil => exact ⟨rfl, .ended⟩
    | cons face faces => exact ⟨rfl, .kept face faces⟩
  | kept face faces => exact ⟨rfl, .kept face faces⟩
  | ended => exact ⟨rfl, .ended⟩

end Script.Holds

/-- A source that is a script with these faces left. -/
def Source.Holds : Source → List Nat → Prop
  | .scripted script, faces => script.Holds faces
  | _, _ => False

theorem Source.Holds.exists_eq_scripted {source : Source} {faces : List Nat}
    (h : source.Holds faces) :
    ∃ script : Script, source = .scripted script ∧ script.Holds faces := by
  cases source with
  | scripted script => exact ⟨script, rfl, h⟩
  | highest | constant | seeded => exact h.elim

/-- A script deals the faces that it has left. -/
theorem Roller.ofSource_simulates_dealing :
    Roller.ofSource.Simulates Roller.dealing Source.Holds := by
  intro sides source faces h
  obtain ⟨script, rfl, h⟩ := h.exists_eq_scripted
  exact h.next

end DiceNotation
