import DiceNotation.Outcome

/-!
# Rollers

A roller decides what each die shows. It has a state, and it may run out of faces:
what it gave up to then is gone.
-/

namespace DiceNotation

/-! ## §1 Rolling one term -/

/-- A source of faces with states of type `σ`. -/
structure Roller (σ : Type) where
  /-- What the next die of a number of sides shows, if the roller has a face left, and the
  state after it. -/
  die : Nat → σ → Option Nat × σ

namespace Roller

variable {σ : Type}

/-- Rolls a number of dice of the same sides, one after another. -/
def dice (r : Roller σ) (sides : Nat) : Nat → σ → Option (List Nat) × σ
  | 0, s => (some [], s)
  | n + 1, s =>
    match r.die sides s with
    | (none, s) => (none, s)
    | (some face, s) =>
      let (faces, s) := r.dice sides n s
      (faces.map (face :: ·), s)

/-- Rolls every die of a term in order. -/
def roll (r : Roller σ) (t : Term) (s : σ) : Option Outcome × σ :=
  let (faces, s) := r.dice t.sides t.count s
  (faces.map (⟨t, ·⟩), s)

/-! ## §2 Rollers that never run out -/

/-- An unfailing roller has a face for every die. -/
def Unfailing (r : Roller σ) : Prop :=
  ∀ sides s, (r.die sides s).1.isSome

/-- An unfailing roller has faces for any number of dice. -/
theorem Unfailing.isSome_dice {r : Roller σ} (h : r.Unfailing) (sides n : Nat) (s : σ) :
    (r.dice sides n s).1.isSome := by
  induction n generalizing s with
  | zero => rfl
  | succ n ih =>
    rw [dice]
    split
    · next h' => exact absurd (h sides s) (by rw [h']; exact Bool.false_ne_true)
    · next s' _ => exact (Option.isSome_map ..).trans (ih s')

/-- An unfailing roller has an outcome for every term. -/
theorem Unfailing.isSome_roll {r : Roller σ} (h : r.Unfailing) (t : Term) (s : σ) :
    (r.roll t s).1.isSome :=
  (Option.isSome_map ..).trans (h.isSome_dice t.sides t.count s)

/-! ## §3 Rollers without chance -/

/-- Every die shows its highest face. -/
def highest : Roller Unit where
  die sides s := (some sides, s)

/-- Every die shows one face, whatever its sides; the face is the state. -/
def constant : Roller Nat where
  die _ face := (some face, face)

end Roller

end DiceNotation
