import DiceNotation.Grammar.Diagnosis
import DiceNotation.Proofs.Reading

/-!
# Attempts

The strict grammar as it is put together from small attempts, with the bookkeeping that its
diagnosis rests on. While attempts are made, at most one candidate is held. An attempt that
cannot go on adds one of its own to it (`Candidate.addTo`); an optional part that fails is
given up and the reading goes back, but the candidate stays. A named part is attempted with
nothing held, and what it leaves is added under its name.

The attempts read what the grammar reads, and a text that is refused leaves exactly the
candidate that diagnoses it: `Attempt.run_sum` and `Attempt.run_singleTerm`. In particular
no refusal leaves nothing.
-/

namespace DiceNotation

open Text (Numeral)

/-! ## §1 The bookkeeping -/

namespace Candidate

/-- A candidate is held from now on, if none is held that got as far; one that got equally far
stays and takes over what the new one expected. -/
def addTo (new : Candidate) : Option Candidate → Option Candidate
  | none => some new
  | some held => some (held.furthest new)

/-- The candidate that is held after an attempt at a further term, given the one held so far. -/
def ofJoined (p : Position) (held : Candidate) : Candidate :=
  (ofPlus p held).furthest (ofTerm p.afterPlus)

/-- Dice where none may be. The offending text is the letter and the sides, and the dice are
noticed behind the letter. -/
def ofDice (p : Position) : Candidate where
  reach := p.next
  expected := []
  found := p.rest.head?
  start := p.offset
  stop := Position.afterDigits ⟨p.next, p.rest.tail⟩ |>.offset

end Candidate

/-- What an attempt leads to. -/
structure Trial (α : Type) where
  /-- What was read and the place behind it, if the attempt did not fail. -/
  read : Option (α × Position)
  /-- The candidate that is held after the attempt. -/
  held : Option Candidate

theorem Trial.eq_failed {α β : Type} {trial : Trial α} {f : α × Position → β} {c : Candidate}
    (hread : trial.read.map f = none) (hheld : trial.held = some c) : trial = ⟨none, some c⟩ := by
  obtain ⟨read, held⟩ := trial
  obtain rfl := Option.map_eq_none_iff.mp hread
  obtain rfl := hheld
  rfl

/-- An attempt to read something. -/
structure Attempt (α : Type) where
  /-- What it leads to at a place, while a candidate may be held. -/
  run : Position → Option Candidate → Trial α

namespace Attempt

variable {α β : Type}

/-! ## §2 Putting attempts together -/

/-- One attempt after the other: the second one is made behind what the first one read. -/
protected def bind (x : Attempt α) (f : α → Attempt β) : Attempt β where
  run p held :=
    match x.run p held with
    | ⟨some (a, q), held⟩ => (f a).run q held
    | ⟨none, held⟩ => ⟨none, held⟩

instance : Monad Attempt where
  pure a := ⟨fun p held => ⟨some (a, p), held⟩⟩
  bind := Attempt.bind

/-- An attempt whose failure is no failure: the reading goes back, and the candidate stays. -/
def optional (x : Attempt α) : Attempt (Option α) where
  run p held :=
    match x.run p held with
    | ⟨some (a, q), held⟩ => ⟨some (some a, q), held⟩
    | ⟨none, held⟩ => ⟨some (none, p), held⟩

/-- Makes an attempt again and again, until it fails or reads nothing. -/
def runMany (x : Attempt α) (p : Position) (held : Option Candidate) : Trial (List α) :=
  match x.run p held with
  | ⟨none, held⟩ => ⟨some ([], p), held⟩
  | ⟨some (a, q), held⟩ =>
    if q.rest.length < p.rest.length then
      let trial := x.runMany q held
      ⟨trial.read.map fun (more, q) => (a :: more, q), trial.held⟩
    else
      ⟨some ([a], q), held⟩
termination_by p.rest.length

def many (x : Attempt α) : Attempt (List α) :=
  ⟨x.runMany⟩

/-- An attempt with a name: the candidate that is held is set aside meanwhile, and what the
attempt leaves is added to it. -/
def named (name : Expectation) (x : Attempt α) : Attempt α where
  run p held :=
    match x.run p none with
    | ⟨read, none⟩ => ⟨read, held⟩
    | ⟨read, some c⟩ => ⟨read, (c.named name p).addTo held⟩

/-! ## §3 The smallest attempts -/

/-- One certain character. -/
def char (c : Char) (expected : Expectation) : Attempt Unit where
  run p held :=
    if p.rest.head? = some c then ⟨some ((), ⟨p.next, p.rest.tail⟩), held⟩
    else ⟨none, (Candidate.here p [expected]).addTo held⟩

/-- A sign. That it is missing is noticed behind the character in its place. -/
def sign : Attempt Sign where
  run p held :=
    match Sign.read? p.rest with
    | some (sign, rest) => ⟨some (sign, ⟨p.next, rest⟩), held⟩
    | none => ⟨none, { Candidate.here p [.plus, .minus] with reach := p.next }.addTo held⟩

/-- A numeral. Its digits leave a candidate at their end, whether there are any or not. -/
def numeral : Attempt Numeral where
  run p held :=
    ⟨(Numeral.read? p.rest).map fun (n, _) => (n, p.afterDigits),
      (Candidate.here p.afterDigits []).addTo held⟩

/-- A look ahead for dice, which must not be there. -/
def noDice : Attempt Unit where
  run p held :=
    if Spelling.startsDice p.rest then ⟨none, (Candidate.ofDice p).addTo held⟩
    else ⟨some ((), p), held⟩

/-- The end of the text. -/
def atEnd : Attempt Unit where
  run p held :=
    if p.rest = [] then ⟨some ((), p), held⟩
    else ⟨none, (Candidate.here p [.endOfInput]).addTo held⟩

/-! ## §4 The grammar -/

/-- A sign and digits that are not the count of dice. -/
def signedNumeral : Attempt SignedNumeral := do
  let sign ← sign
  let size ← numeral
  noDice
  return ⟨sign, size⟩

def modifier : Attempt SignedNumeral :=
  named .modifier signedNumeral

/-- The parts of a term: `[count] d sides [modifier]`. -/
def spelling : Attempt Spelling := do
  let count ← optional numeral
  char 'd' .letterD
  let sides ← numeral
  let modifier ← optional modifier
  return ⟨count, sides, modifier⟩

def term : Attempt Spelling :=
  named .term spelling

/-- A further term, with an optional `+` before it. -/
def joined : Attempt Spelling := do
  let _ ← optional (char '+' .plus)
  term

/-- The further terms up to the end of the text. -/
def moreTerms : Attempt (List Spelling) := do
  let more ← many joined
  atEnd
  return more

/-- A whole text as a sum. -/
def sum : Attempt (List Spelling) := do
  let first ← term
  let more ← moreTerms
  return first :: more

/-- A whole text as a single term. -/
def singleTerm : Attempt Spelling := do
  let s ← term
  atEnd
  return s

/-! ## §5 What attempts lead to -/

section Combined

variable {x : Attempt α} {p q : Position} {held held' : Option Candidate} {a : α}

theorem run_pure (a : α) : (pure a : Attempt α).run p held = ⟨some (a, p), held⟩ := rfl

theorem run_bind_of_read (h : x.run p held = ⟨some (a, q), held'⟩) (f : α → Attempt β) :
    (x >>= f).run p held = (f a).run q held' := by
  show (x.bind f).run p held = _
  simp only [Attempt.bind, h]

theorem run_bind_of_failed (h : x.run p held = ⟨none, held'⟩) (f : α → Attempt β) :
    (x >>= f).run p held = ⟨none, held'⟩ := by
  show (x.bind f).run p held = _
  simp only [Attempt.bind, h]

theorem run_bind_pure (x : Attempt α) (f : α → β) :
    (x >>= fun a => pure (f a)).run p held =
      ⟨(x.run p held).read.map fun (a, q) => (f a, q), (x.run p held).held⟩ := by
  cases h : x.run p held with
  | mk read held' =>
    cases read with
    | none => exact run_bind_of_failed h _
    | some read => exact run_bind_of_read h _

theorem run_optional_of_read (h : x.run p held = ⟨some (a, q), held'⟩) :
    (optional x).run p held = ⟨some (some a, q), held'⟩ := by
  simp only [optional, h]

theorem run_optional_of_failed (h : x.run p held = ⟨none, held'⟩) :
    (optional x).run p held = ⟨some (none, p), held'⟩ := by
  simp only [optional, h]

theorem run_named {read : Option (α × Position)} {c : Candidate}
    (h : x.run p none = ⟨read, some c⟩) (name : Expectation) (held : Option Candidate) :
    (named name x).run p held = ⟨read, (c.named name p).addTo held⟩ := by
  simp only [named, h]

end Combined

end Attempt

/-! ## §6 Places -/

namespace Position

theorem next_eq {p : Position} {c : Char} {rest : List Char} (h : p.rest = c :: rest) :
    p.next = p.offset + c.utf8Size := by
  simp only [next, h]

theorem offset_le_next (p : Position) : p.offset ≤ p.next := by
  cases h : p.rest with
  | nil => simp [next, h]
  | cons c rest =>
    rw [next_eq h]
    exact Nat.le_add_right _ _

/-- Where dice stand, there is a next character. -/
theorem offset_lt_next_of_startsDice {p : Position} (h : Spelling.startsDice p.rest = true) :
    p.offset < p.next := by
  cases hrest : p.rest with
  | nil =>
    rw [hrest] at h
    cases h
  | cons c rest =>
    rw [next_eq hrest]
    exact Nat.lt_add_of_pos_right c.utf8Size_pos

theorem afterDigits_digits {ds rest : List Char} (hds : ∀ c ∈ ds, c.isDigit = true)
    (hrest : startsDigit rest = false) (offset : Nat) :
    afterDigits ⟨offset, ds ++ rest⟩ = ⟨offset + ds.length, rest⟩ := by
  simp only [afterDigits, takeWhile_digits hds hrest, dropWhile_digits hds hrest]

/-- The place behind a numeral that was read. -/
theorem afterDigits_of_read? {p : Position} {n : Numeral} {rest : List Char}
    (h : Numeral.read? p.rest = some (n, rest)) :
    p.afterDigits = ⟨p.offset + n.digits.length, rest⟩ := by
  obtain ⟨offset, cs⟩ := p
  obtain ⟨rfl, hrest⟩ := Numeral.read?_eq_some_iff.mp h
  exact afterDigits_digits n.isDigit_of_mem hrest offset

theorem afterDigits_eq_self {p : Position} (h : startsDigit p.rest = false) :
    p.afterDigits = p := by
  rw [afterDigits, takeWhile_eq_nil h, dropWhile_eq_self h]
  rfl

end Position

/-! ## §7 What candidates are -/

namespace Candidate

theorem ofTerm_of_no_letter {p : Position} (h : p.afterDigits.rest.head? ≠ some 'd') :
    ofTerm p =
      named .term p ((here p.afterDigits []).furthest (here p.afterDigits [.letterD])) := by
  simp only [ofTerm]
  split
  · next hrest => exact absurd (congrArg List.head? hrest) h
  · rfl

theorem ofMore_of_read?_eq_some {p : Position} {s : Spelling} {rest : List Char}
    (h : Spelling.read? p.afterPlus.rest = some (s, rest)) (held : Candidate) :
    ofMore p held = ofMore ⟨p.afterPlus.offset + s.chars.length, rest⟩ (ofJoined p held) := by
  rw [ofMore]
  split
  · next h' =>
    obtain ⟨rfl, rfl⟩ := Prod.mk.inj (Option.some.inj (h'.symm.trans h))
    rfl
  · next h' => cases h'.symm.trans h

theorem ofMore_of_read?_eq_none {p : Position}
    (h : Spelling.read? p.afterPlus.rest = none) (held : Candidate) :
    ofMore p held = (ofJoined p held).furthest (here p [.endOfInput]) := by
  rw [ofMore]
  split
  · next h' => cases h'.symm.trans h
  · rfl

theorem furthest_of_reach_lt {held new : Candidate} (h : held.reach < new.reach) :
    held.furthest new = new :=
  if_pos h

end Candidate

namespace Attempt

variable {p : Position}

/-! ## §8 One modifier -/

theorem run_numeral_of_read {n : Numeral} {rest : List Char}
    (h : Numeral.read? p.rest = some (n, rest)) (held : Option Candidate) :
    numeral.run p held = ⟨some (n, p.afterDigits), (Candidate.here p.afterDigits []).addTo held⟩ := by
  simp [numeral, h]

theorem run_numeral_of_not_read (h : Numeral.read? p.rest = none) (held : Option Candidate) :
    numeral.run p held = ⟨none, (Candidate.here p.afterDigits []).addTo held⟩ := by
  simp [numeral, h]

section Signed

variable {sgn : Sign} (start : Position) {after : List Char} {size : Numeral}

theorem run_sign_of_read (h : Sign.read? p.rest = some (sgn, start.rest))
    (hstart : start.offset = p.offset + 1) (held : Option Candidate) :
    sign.run p held = ⟨some (sgn, start), held⟩ := by
  have hnext : p.next = start.offset := by
    rw [Position.next_eq (Sign.eq_cons_of_read? h), hstart]
    cases sgn <;> rfl
  simp only [sign, h, hnext]

theorem run_signedNumeral_of_no_sign (h : Sign.read? p.rest = none) :
    signedNumeral.run p none =
      ⟨none, some { Candidate.here p [.plus, .minus] with reach := p.next }⟩ := by
  apply run_bind_of_failed
  simp only [sign, h, Candidate.addTo]

section

variable (h : Sign.read? p.rest = some (sgn, start.rest)) (hstart : start.offset = p.offset + 1)

include h hstart

theorem run_signedNumeral_of_no_digits (hsize : Numeral.read? start.rest = none) :
    signedNumeral.run p none = ⟨none, some (.here start.afterDigits [])⟩ := by
  rw [signedNumeral, run_bind_of_read (run_sign_of_read start h hstart none)]
  exact run_bind_of_failed (run_numeral_of_not_read hsize none) _

/-- The dice behind a sign and digits got further than the digits. -/
theorem run_signedNumeral_of_dice (hsize : Numeral.read? start.rest = some (size, after))
    (hdice : Spelling.startsDice start.afterDigits.rest = true) :
    signedNumeral.run p none = ⟨none, some (.ofDice start.afterDigits)⟩ := by
  have hfurther : (Candidate.here start.afterDigits []).reach <
      (Candidate.ofDice start.afterDigits).reach :=
    Position.offset_lt_next_of_startsDice hdice
  rw [signedNumeral, run_bind_of_read (run_sign_of_read start h hstart none),
    run_bind_of_read (run_numeral_of_read hsize none)]
  apply run_bind_of_failed
  simp only [noDice, hdice, if_true, Candidate.addTo, Candidate.furthest_of_reach_lt hfurther]

theorem run_signedNumeral_of_read (hsize : Numeral.read? start.rest = some (size, after))
    (hdice : Spelling.startsDice start.afterDigits.rest = false) :
    signedNumeral.run p none =
      ⟨some (⟨sgn, size⟩, start.afterDigits), some (.here start.afterDigits [])⟩ := by
  rw [signedNumeral, run_bind_of_read (run_sign_of_read start h hstart none),
    run_bind_of_read (run_numeral_of_read hsize none)]
  apply run_bind_of_read (a := ()) (q := start.afterDigits)
  simp [noDice, hdice, Candidate.addTo]

end

end Signed

/-- The attempt at a modifier reads what is read as one, and leaves its candidate. -/
theorem run_modifier (p : Position) (held : Option Candidate) :
    modifier.run p held =
      ⟨(Spelling.readModifier? p.rest).map fun (m, rest) => (m, ⟨p.offset + m.chars.length, rest⟩),
        (Candidate.ofModifier p).addTo held⟩ := by
  cases hsign : Sign.read? p.rest with
  | none =>
    rw [modifier, run_named (run_signedNumeral_of_no_sign hsign)]
    simp [Spelling.readModifier?, Candidate.ofModifier, hsign]
  | some read =>
    obtain ⟨sgn, rest⟩ := read
    cases hsize : Numeral.read? rest with
    | none =>
      rw [modifier, run_named (run_signedNumeral_of_no_digits ⟨p.offset + 1, rest⟩
        hsign rfl hsize)]
      simp [Spelling.readModifier?, Candidate.ofModifier, hsign, hsize]
    | some read =>
      obtain ⟨size, after⟩ := read
      have hstop : Position.afterDigits ⟨p.offset + 1, rest⟩ =
          ⟨p.offset + (SignedNumeral.mk sgn size).chars.length, after⟩ := by
        have hoffset : p.offset + 1 + size.digits.length = p.offset + (size.digits.length + 1) := by
          omega
        rw [Position.afterDigits_of_read? hsize, hoffset]
        rfl
      cases hdice : Spelling.startsDice after with
      | true =>
        obtain ⟨sides, rfl⟩ := Spelling.exists_eq_cons_of_startsDice hdice
        have hd : ('d' : Char).utf8Size = 1 := by decide
        rw [modifier, run_named (run_signedNumeral_of_dice ⟨p.offset + 1, rest⟩
          hsign rfl hsize (by rw [hstop]; exact hdice))]
        simp [Spelling.readModifier?, Candidate.ofModifier, hsign, hsize, hstop, hdice,
          Candidate.ofDice, Position.next, hd]
      | false =>
        rw [modifier, run_named (run_signedNumeral_of_read ⟨p.offset + 1, rest⟩
          hsign rfl hsize (by rw [hstop]; exact hdice))]
        simp [Spelling.readModifier?, Candidate.ofModifier, hsign, hsize, hstop, hdice]

/-! ## §9 One term -/

/-- The attempt at a count always succeeds, since the count may be left out. -/
theorem run_optional_numeral (p : Position) :
    (optional numeral).run p none =
      ⟨some ((Spelling.readCount p.rest).1, p.afterDigits), some (.here p.afterDigits [])⟩ := by
  cases hcount : Numeral.read? p.rest with
  | some read =>
    obtain ⟨count, rest⟩ := read
    rw [run_optional_of_read (run_numeral_of_read hcount none)]
    simp [Spelling.readCount, hcount, Candidate.addTo]
  | none =>
    have hself := Position.afterDigits_eq_self (Numeral.read?_eq_none_iff.mp hcount)
    rw [run_optional_of_failed (run_numeral_of_not_read hcount none), hself]
    simp [Spelling.readCount, hcount, Candidate.addTo]

/-- The attempt at a modifier that may be left out always succeeds. -/
theorem run_optional_modifier (p : Position) (held : Option Candidate) :
    (optional modifier).run p held =
      ⟨some ((Spelling.readOptionalModifier p.rest).1,
        ⟨p.offset + (((Spelling.readOptionalModifier p.rest).1.map SignedNumeral.chars).getD []).length,
          (Spelling.readOptionalModifier p.rest).2⟩),
        (Candidate.ofModifier p).addTo held⟩ := by
  cases hread : Spelling.readModifier? p.rest with
  | some read =>
    obtain ⟨m, rest⟩ := read
    have hrun := run_modifier p held
    rw [hread] at hrun
    rw [run_optional_of_read hrun]
    simp [Spelling.readOptionalModifier, hread]
  | none =>
    have hrun := run_modifier p held
    rw [hread] at hrun
    rw [run_optional_of_failed hrun]
    simp [Spelling.readOptionalModifier, hread]

theorem run_letter_of_eq {rest : List Char} (h : p.rest = 'd' :: rest) (held : Option Candidate) :
    (char 'd' .letterD).run p held = ⟨some ((), ⟨p.offset + 1, rest⟩), held⟩ := by
  have hnext : p.next = p.offset + 1 := Position.next_eq h
  simp [char, h, hnext]

theorem run_char_of_ne {c : Char} (h : p.rest.head? ≠ some c) (expected : Expectation)
    (held : Option Candidate) :
    (char c expected).run p held = ⟨none, (Candidate.here p [expected]).addTo held⟩ := by
  simp [char, h]

section Parts

variable {rest after : List Char} {sides : Numeral}

theorem run_spelling_of_no_letter (h : p.afterDigits.rest.head? ≠ some 'd') :
    spelling.run p none =
      ⟨none, some ((Candidate.here p.afterDigits []).furthest
        (Candidate.here p.afterDigits [.letterD]))⟩ := by
  rw [spelling, run_bind_of_read (run_optional_numeral p)]
  exact run_bind_of_failed (run_char_of_ne h .letterD _) _

theorem run_spelling_of_no_sides (h : p.afterDigits.rest = 'd' :: rest)
    (hsides : Numeral.read? rest = none) :
    spelling.run p none =
      ⟨none, some ((Candidate.here p.afterDigits []).furthest
        (Candidate.here (Position.afterDigits ⟨p.afterDigits.offset + 1, rest⟩) []))⟩ := by
  rw [spelling, run_bind_of_read (run_optional_numeral p),
    run_bind_of_read (run_letter_of_eq h _)]
  exact run_bind_of_failed (run_numeral_of_not_read hsides _) _

theorem run_spelling_of_sides (h : p.afterDigits.rest = 'd' :: rest)
    (hsides : Numeral.read? rest = some (sides, after)) :
    spelling.run p none =
      ⟨(Spelling.read? p.rest).map fun (s, rest) => (s, ⟨p.offset + s.chars.length, rest⟩),
        some (((Candidate.here p.afterDigits []).furthest
          (Candidate.here (Position.afterDigits ⟨p.afterDigits.offset + 1, rest⟩) [])).furthest
            (Candidate.ofModifier (Position.afterDigits ⟨p.afterDigits.offset + 1, rest⟩)))⟩ := by
  rw [spelling, run_bind_of_read (run_optional_numeral p),
    run_bind_of_read (run_letter_of_eq h _),
    run_bind_of_read (run_numeral_of_read hsides _), run_bind_of_read (run_optional_modifier _ _),
    run_pure]
  have hcount : (Spelling.readCount p.rest).2 = 'd' :: rest := (Spelling.snd_readCount p.rest).trans h
  have hread : Spelling.read? p.rest =
      some (⟨(Spelling.readCount p.rest).1, sides, (Spelling.readOptionalModifier after).1⟩,
        (Spelling.readOptionalModifier after).2) := by
    simp [Spelling.read?, Spelling.readSides?, hcount, hsides]
  -- The parts that were read make up the spelling
  rw [hread, Position.afterDigits_of_read? hsides]
  simp [Spelling.chars, Candidate.addTo, Position.afterDigits, Spelling.fst_readCount,
    Nat.add_assoc, Nat.add_comm, Nat.add_left_comm]

end Parts

/-- The attempt at a term reads what is read as one, and leaves its candidate. -/
theorem run_term (p : Position) (held : Option Candidate) :
    term.run p held =
      ⟨(Spelling.read? p.rest).map fun (s, rest) => (s, ⟨p.offset + s.chars.length, rest⟩),
        (Candidate.ofTerm p).addTo held⟩ := by
  have hcount : (Spelling.readCount p.rest).2 = p.afterDigits.rest := Spelling.snd_readCount p.rest
  by_cases hletter : p.afterDigits.rest.head? = some 'd'
  · obtain ⟨rest, hrest⟩ := List.head?_eq_some_iff.mp hletter
    cases hsides : Numeral.read? rest with
    | none =>
      rw [term, run_named (run_spelling_of_no_sides hrest hsides)]
      simp [Spelling.read?, Spelling.readSides?, Candidate.ofTerm, hcount, hrest, hsides]
    | some read =>
      obtain ⟨sides, after⟩ := read
      rw [term, run_named (run_spelling_of_sides hrest hsides)]
      simp [Candidate.ofTerm, hrest, hsides]
  · have hsides : Spelling.readSides? p.afterDigits.rest = none := by
      unfold Spelling.readSides?
      split
      · next hrest => exact absurd (congrArg List.head? hrest) hletter
      · rfl
    rw [term, run_named (run_spelling_of_no_letter hletter), Candidate.ofTerm_of_no_letter hletter]
    simp [Spelling.read?, hcount, hsides]

/-! ## §10 Several terms -/

/-- The attempt at the `+` before a term always succeeds, since the `+` may be left out. -/
theorem run_optional_plus (p : Position) (held : Candidate) :
    ∃ found, (optional (char '+' .plus)).run p (some held) =
      ⟨some (found, p.afterPlus), some (Candidate.ofPlus p held)⟩ := by
  by_cases hplus : p.rest.head? = some '+'
  · obtain ⟨rest, hrest⟩ := List.head?_eq_some_iff.mp hplus
    have hnext : p.next = p.offset + 1 := Position.next_eq hrest
    refine ⟨some (), run_optional_of_read ?_⟩
    simp [char, Position.afterPlus, Candidate.ofPlus, hrest, hnext]
  · have hcons : ∀ rest, p.rest ≠ '+' :: rest := by
      intro rest hrest
      exact hplus (by rw [hrest, List.head?_cons])
    have hself : p.afterPlus = p := by simp [Position.afterPlus]
    rw [run_optional_of_failed (run_char_of_ne hplus .plus _), hself]
    refine ⟨none, ?_⟩
    simp [Candidate.ofPlus, Candidate.addTo]

theorem run_joined (p : Position) (held : Candidate) :
    joined.run p (some held) =
      ⟨(Spelling.read? p.afterPlus.rest).map fun (s, rest) =>
          (s, ⟨p.afterPlus.offset + s.chars.length, rest⟩),
        some (Candidate.ofJoined p held)⟩ := by
  obtain ⟨found, hplus⟩ := run_optional_plus p held
  rw [joined, run_bind_of_read hplus, run_term]
  rfl

section More

variable {s : Spelling} {rest : List Char}

/-- A further term is read, and the attempt goes on behind it. -/
theorem run_moreTerms_of_read (h : Spelling.read? p.afterPlus.rest = some (s, rest))
    (held : Candidate) :
    moreTerms.run p (some held) =
      let trial := moreTerms.run ⟨p.afterPlus.offset + s.chars.length, rest⟩
        (some (Candidate.ofJoined p held))
      ⟨trial.read.map fun (more, q) => (s :: more, q), trial.held⟩ := by
  have hshorter : rest.length < p.rest.length :=
    Nat.lt_of_lt_of_le (Spelling.length_lt_of_read? h)
      (p.rest_afterPlus ▸ Sign.length_dropPlus_le p.rest)
  have hmany : (many joined).run p (some held) =
      let trial := (many joined).run ⟨p.afterPlus.offset + s.chars.length, rest⟩
        (some (Candidate.ofJoined p held))
      ⟨trial.read.map fun (more, q) => (s :: more, q), trial.held⟩ := by
    show runMany joined p (some held) = _
    rw [runMany, run_joined, h]
    exact if_pos hshorter
  cases htrial : (many joined).run ⟨p.afterPlus.offset + s.chars.length, rest⟩
      (some (Candidate.ofJoined p held)) with
  | mk read held' =>
    rw [htrial] at hmany
    cases read with
    | none =>
      rw [moreTerms, run_bind_of_failed htrial, run_bind_of_failed hmany]
      rfl
    | some read =>
      obtain ⟨more, q⟩ := read
      rw [moreTerms, run_bind_of_read htrial, run_bind_of_read hmany]
      -- The end of the text is looked for at the same place
      cases hend : atEnd.run q held' with
      | mk read held'' =>
        cases read with
        | none =>
          rw [run_bind_of_failed hend, run_bind_of_failed hend]
          rfl
        | some read =>
          rw [run_bind_of_read hend, run_bind_of_read hend]
          rfl

/-- No further term is read, and the text has to end. -/
theorem run_moreTerms_of_not_read (h : Spelling.read? p.afterPlus.rest = none) (held : Candidate) :
    moreTerms.run p (some held) =
      if p.rest = [] then ⟨some ([], p), some (Candidate.ofJoined p held)⟩
      else ⟨none, some ((Candidate.ofJoined p held).furthest (Candidate.here p [.endOfInput]))⟩ := by
  have hmany : (many joined).run p (some held) = ⟨some ([], p), some (Candidate.ofJoined p held)⟩ := by
    show runMany joined p (some held) = _
    rw [runMany, run_joined, h]
    rfl
  rw [moreTerms, run_bind_of_read hmany]
  by_cases hrest : p.rest = []
  · rw [if_pos hrest]
    apply run_bind_of_read (a := ()) (q := p)
    simp [atEnd, hrest]
  · rw [if_neg hrest]
    apply run_bind_of_failed
    simp [atEnd, hrest, Candidate.addTo]

end More

/-- The attempt at the further terms reads what is read as them, and if it fails it leaves the
candidate of the refusal. -/
theorem run_moreTerms (p : Position) (held : Candidate) :
    (moreTerms.run p (some held)).read.map Prod.fst = Spelling.readMore? p.rest ∧
      (Spelling.readMore? p.rest = none →
        (moreTerms.run p (some held)).held = some (Candidate.ofMore p held)) := by
  induction p, held using Candidate.ofMore.induct with
  | case1 p held next c s rest hread ih =>
    have hmore : Spelling.readMore? p.rest = (Spelling.readMore? rest).map (s :: ·) :=
      Spelling.readMore?_of_read?_eq_some (p.rest_afterPlus ▸ hread)
    obtain ⟨ihread, ihheld⟩ := ih
    rw [run_moreTerms_of_read hread, Candidate.ofMore_of_read?_eq_some hread, hmore]
    constructor
    · rw [← ihread, Option.map_map, Option.map_map]
      rfl
    · intro hnone
      exact ihheld (Option.map_eq_none_iff.mp hnone)
  | case2 p held next hread =>
    rw [run_moreTerms_of_not_read hread, Candidate.ofMore_of_read?_eq_none hread]
    cases hrest : p.rest with
    | nil => simp [Spelling.readMore?]
    | cons c cs =>
      rw [p.rest_afterPlus, hrest] at hread
      simp [Spelling.readMore?_cons_of_read?_eq_none hread]

/-! ## §11 Whole texts -/

theorem run_sum (cs : List Char) :
    (sum.run ⟨0, cs⟩ none).read.map Prod.fst = Spelling.readSum? cs ∧
      (Spelling.readSum? cs = none →
        (sum.run ⟨0, cs⟩ none).held = some (Candidate.ofSum cs)) := by
  have hterm := run_term ⟨0, cs⟩ none
  cases hread : Spelling.read? cs with
  | none =>
    rw [hread] at hterm
    rw [sum, run_bind_of_failed hterm]
    simp [Spelling.readSum?, Candidate.ofSum, hread, Candidate.addTo]
  | some read =>
    obtain ⟨s, rest⟩ := read
    obtain ⟨hmore, hheld⟩ := run_moreTerms ⟨s.chars.length, rest⟩ (Candidate.ofTerm ⟨0, cs⟩)
    simp only [hread, Option.map_some, Nat.zero_add, Candidate.addTo] at hterm
    rw [sum, run_bind_of_read hterm, run_bind_pure, Spelling.readSum?_of_read?_eq_some hread]
    constructor
    · rw [← hmore, Option.map_map, Option.map_map]
      rfl
    · intro hnone
      rw [hheld (Option.map_eq_none_iff.mp hnone)]
      simp [Candidate.ofSum, hread]

/-- **Refusals are diagnosed**: where no sum is read, the candidate that is held is the diagnosis. -/
theorem run_sum_of_refused {cs : List Char} (h : Spelling.readSum? cs = none) :
    sum.run ⟨0, cs⟩ none = ⟨none, some (Candidate.ofSum cs)⟩ := by
  obtain ⟨hread, hheld⟩ := run_sum cs
  exact Trial.eq_failed (hread.trans h) (hheld h)

theorem run_singleTerm (cs : List Char) :
    (singleTerm.run ⟨0, cs⟩ none).read.map Prod.fst = Spelling.readTerm? cs ∧
      (Spelling.readTerm? cs = none →
        (singleTerm.run ⟨0, cs⟩ none).held = some (Candidate.ofSingleTerm cs)) := by
  have hterm := run_term ⟨0, cs⟩ none
  cases hread : Spelling.read? cs with
  | none =>
    rw [hread] at hterm
    rw [singleTerm, run_bind_of_failed hterm]
    simp [Spelling.readTerm?, Candidate.ofSingleTerm, hread, Candidate.addTo]
  | some read =>
    obtain ⟨s, rest⟩ := read
    simp only [hread, Option.map_some, Nat.zero_add, Candidate.addTo] at hterm
    rw [singleTerm, run_bind_of_read hterm, run_bind_pure]
    cases rest with
    | nil => simp [Spelling.readTerm?, hread, atEnd]
    | cons c rest =>
      simp [Spelling.readTerm?, Candidate.ofSingleTerm, hread, atEnd, Candidate.addTo]

theorem run_singleTerm_of_refused {cs : List Char} (h : Spelling.readTerm? cs = none) :
    singleTerm.run ⟨0, cs⟩ none = ⟨none, some (Candidate.ofSingleTerm cs)⟩ := by
  obtain ⟨hread, hheld⟩ := run_singleTerm cs
  exact Trial.eq_failed (hread.trans h) (hheld h)

end Attempt

end DiceNotation
