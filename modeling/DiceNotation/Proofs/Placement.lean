import DiceNotation.Proofs.Agreement
import DiceNotation.Proofs.Attempts
import Mathlib.Data.String.Basic

/-!
# Where Diagnoses Point

Whatever the strict grammar attempts, the places it gets to lie between two characters of
the text (`Position.IsIn`), and the candidates it leaves point at a part of the text that
starts with the character they found (`Candidate.PointsInto`). Both are kept by each small
attempt and by each way to put attempts together, hence by the grammar.

So a refusal carries one syntax error that is placed in the text: `refusal_is_placed`.
-/

namespace DiceNotation

open String (utf8Len utf8Len_nil utf8Len_cons utf8Len_append utf8Len_eq_zero utf8Len_toList)
open Text (Numeral)

/-! ## §1 Bytes -/

/-- A digit has one byte. -/
theorem utf8Size_of_isDigit {c : Char} (h : c.isDigit = true) : c.utf8Size = 1 := by
  have hall : decimalDigits.all (fun d => d.utf8Size == 1) = true := by decide
  exact eq_of_beq (List.all_eq_true.mp hall c ((isDigit_iff_mem c).mp h))

theorem utf8Len_digits {ds : List Char} (h : ∀ c ∈ ds, c.isDigit = true) :
    utf8Len ds = ds.length := by
  induction ds with
  | nil => rfl
  | cons c ds ih =>
    rw [utf8Len_cons, utf8Size_of_isDigit (h c List.mem_cons_self),
      ih fun d hd => h d (List.mem_cons_of_mem c hd), List.length_cons]

/-- A run of digits at the front of a text has one byte for each digit. -/
theorem utf8Len_takeWhile (cs : List Char) :
    utf8Len (cs.takeWhile Char.isDigit) = (cs.takeWhile Char.isDigit).length :=
  utf8Len_digits (List.all_eq_true.mp List.all_takeWhile)

/-! ## §2 Places in a text -/

/-- A place lies in a text: the text goes on there as it says, behind as many bytes as it says. -/
def Position.IsIn (p : Position) (cs : List Char) : Prop :=
  ∃ before, cs = before ++ p.rest ∧ p.offset = utf8Len before

namespace Position.IsIn

variable {p : Position} {cs : List Char}

theorem start (cs : List Char) : IsIn ⟨0, cs⟩ cs :=
  ⟨[], rfl, rfl⟩

/-- Behind some of its characters there is another place of the text. -/
theorem advance (h : p.IsIn cs) {skipped rest : List Char} (hrest : p.rest = skipped ++ rest) :
    IsIn ⟨p.offset + utf8Len skipped, rest⟩ cs := by
  obtain ⟨before, rfl, hoffset⟩ := h
  refine ⟨before ++ skipped, ?_, ?_⟩
  · rw [hrest, List.append_assoc]
  · rw [utf8Len_append, hoffset]

theorem next (h : p.IsIn cs) {c : Char} {rest : List Char} (hrest : p.rest = c :: rest) :
    IsIn ⟨p.next, rest⟩ cs := by
  have hcons : IsIn ⟨p.offset + utf8Len [c], rest⟩ cs := h.advance hrest
  rwa [utf8Len_cons, utf8Len_nil, Nat.zero_add, ← Position.next_eq hrest] at hcons

theorem afterDigits (h : p.IsIn cs) : p.afterDigits.IsIn cs := by
  have hskip := h.advance (List.takeWhile_append_dropWhile (p := Char.isDigit)).symm
  rwa [utf8Len_takeWhile] at hskip

end Position.IsIn

/-! ## §3 Candidates that point into a text -/

/-- A candidate points into a text: its offending text stands there and starts with what was
found. Only at the end of the text there is nothing to point at. -/
structure Candidate.PointsInto (c : Candidate) (cs : List Char) : Prop where
  exists_offending : ∃ before offending after, cs = before ++ (offending ++ after) ∧
    c.start = utf8Len before ∧ c.stop = utf8Len (before ++ offending) ∧
      c.found = (offending ++ after).head? ∧ (offending = [] → after = [])
  /-- The reading had not got behind the offending text. -/
  reach_le_stop : c.reach ≤ c.stop

namespace Candidate

variable {c earlier later : Candidate} {p : Position} {cs : List Char}

/-- A candidate about the next character points at it. -/
theorem pointsInto_here (h : p.IsIn cs) (expected : List Expectation) :
    (here p expected).PointsInto cs := by
  refine ⟨?_, p.offset_le_next⟩
  obtain ⟨before, hcs, hoffset⟩ := h
  cases hrest : p.rest with
  | nil =>
    refine ⟨before, [], [], ?_, hoffset, ?_, ?_, fun _ => rfl⟩
    · rw [hcs, hrest]
      rfl
    · simpa [here, Position.next, hrest] using hoffset
    · simp [here, hrest]
  | cons c rest =>
    refine ⟨before, [c], rest, ?_, hoffset, ?_, ?_, fun hnil => absurd hnil (List.cons_ne_nil _ _)⟩
    · rw [hcs, hrest, List.singleton_append]
    · simp [here, Position.next, hrest, hoffset]
    · simp [here, hrest]

/-- Dice where none may be are pointed at from their letter to the end of their sides. -/
theorem pointsInto_ofDice (h : p.IsIn cs) (hdice : Spelling.startsDice p.rest = true) :
    (ofDice p).PointsInto cs := by
  obtain ⟨rest, hrest⟩ := Spelling.exists_eq_cons_of_startsDice hdice
  obtain ⟨before, hcs, hoffset⟩ := h
  refine ⟨?_, Nat.le_add_right _ _⟩
  refine ⟨before, 'd' :: rest.takeWhile Char.isDigit, rest.dropWhile Char.isDigit, ?_, hoffset, ?_,
    ?_, fun hnil => absurd hnil (List.cons_ne_nil _ _)⟩
  · rw [hcs, hrest, List.cons_append, List.takeWhile_append_dropWhile]
  · simp [ofDice, Position.next, Position.afterDigits, hrest, hoffset, utf8Len_takeWhile,
      Nat.add_assoc, Nat.add_comm, Nat.add_left_comm]
  · simp [ofDice, hrest]

/-- Of two candidates that point into a text, the one that is kept does. -/
theorem PointsInto.furthest (h : earlier.PointsInto cs) (h' : later.PointsInto cs) :
    (earlier.furthest later).PointsInto cs := by
  unfold Candidate.furthest
  split
  · exact h'
  · split
    · exact h
    · -- What is expected has no place
      exact ⟨h.exists_offending, h.reach_le_stop⟩

theorem PointsInto.named (h : c.PointsInto cs) (name : Expectation) (start : Position) :
    (c.named name start).PointsInto cs := by
  unfold Candidate.named
  split
  · exact ⟨h.exists_offending, h.reach_le_stop⟩
  · exact h

theorem PointsInto.addTo (h : c.PointsInto cs) {held : Option Candidate}
    (hheld : ∀ c ∈ held, c.PointsInto cs) : ∀ c' ∈ c.addTo held, c'.PointsInto cs := by
  intro c' hc'
  cases held with
  | none =>
    obtain rfl := Option.mem_some.mp hc'
    exact h
  | some c'' =>
    obtain rfl := Option.mem_some.mp hc'
    exact (hheld c'' rfl).furthest h

end Candidate

/-! ## §4 Attempts that stay in a text -/

namespace Trial

variable {α : Type} {cs : List Char} {held : Option Candidate}

/-- What an attempt leads to stays in a text: it goes on at a place of the text, and the
candidate that is held points into it. -/
structure StaysIn (trial : Trial α) (cs : List Char) : Prop where
  read : ∀ a q, trial.read = some (a, q) → q.IsIn cs
  held : ∀ c ∈ trial.held, c.PointsInto cs

theorem staysIn_failed (hheld : ∀ c ∈ held, c.PointsInto cs) :
    StaysIn (α := α) ⟨none, held⟩ cs :=
  ⟨fun _ _ h => (nomatch h), hheld⟩

theorem staysIn_read {q : Position} (hq : q.IsIn cs) (hheld : ∀ c ∈ held, c.PointsInto cs) (a : α) :
    StaysIn ⟨some (a, q), held⟩ cs := by
  refine ⟨?_, hheld⟩
  intro a' q' h
  obtain ⟨rfl, rfl⟩ := Prod.mk.inj (Option.some.inj h)
  exact hq

end Trial

/-- An attempt stays in every text: it does from every place, whatever is held. -/
def Attempt.StaysInside {α : Type} (x : Attempt α) : Prop :=
  ∀ (cs : List Char) (p : Position) (held : Option Candidate), p.IsIn cs →
    (∀ c ∈ held, c.PointsInto cs) → (x.run p held).StaysIn cs

namespace Attempt

variable {α β : Type}

section Together

variable {x : Attempt α}

theorem staysInside_pure (a : α) : (pure a : Attempt α).StaysInside :=
  fun _ _ _ hp hheld => Trial.staysIn_read hp hheld a

theorem StaysInside.bind (hx : x.StaysInside) {f : α → Attempt β} (hf : ∀ a, (f a).StaysInside) :
    (x >>= f).StaysInside := by
  intro cs p held hp hheld
  obtain ⟨hread, hheld'⟩ := hx cs p held hp hheld
  cases h : x.run p held with
  | mk read held' =>
    rw [h] at hread hheld'
    cases read with
    | none =>
      rw [run_bind_of_failed h]
      exact Trial.staysIn_failed hheld'
    | some read =>
      rw [run_bind_of_read h]
      exact hf read.1 cs read.2 held' (hread read.1 read.2 rfl) hheld'

/-- An attempt that fails goes back to a place that was in the text before. -/
theorem StaysInside.optional (hx : x.StaysInside) : (optional x).StaysInside := by
  intro cs p held hp hheld
  obtain ⟨hread, hheld'⟩ := hx cs p held hp hheld
  cases h : x.run p held with
  | mk read held' =>
    rw [h] at hread hheld'
    cases read with
    | none =>
      rw [run_optional_of_failed h]
      exact Trial.staysIn_read hp hheld' none
    | some read =>
      rw [run_optional_of_read h]
      exact Trial.staysIn_read (hread read.1 read.2 rfl) hheld' (some read.1)

theorem StaysInside.many (hx : x.StaysInside) : (many x).StaysInside := by
  intro cs p held hp hheld
  show (runMany x p held).StaysIn cs
  induction p, held using runMany.induct x with
  | case1 p held held' h =>
    obtain ⟨-, hheld'⟩ := hx cs p held hp hheld
    rw [h] at hheld'
    rw [runMany, h]
    exact Trial.staysIn_read hp hheld' []
  | case2 p held a q held' h hlt ih =>
    obtain ⟨hread, hheld'⟩ := hx cs p held hp hheld
    rw [h] at hread hheld'
    obtain ⟨ihread, ihheld⟩ := ih (hread a q rfl) hheld'
    rw [runMany, h]
    simp only [hlt, if_true]
    refine ⟨?_, ihheld⟩
    intro as q' has
    -- The place is the one that the further attempts end at
    obtain ⟨⟨more, q''⟩, hmore, heq⟩ := Option.map_eq_some_iff.mp has
    obtain ⟨rfl, rfl⟩ := Prod.mk.inj heq
    exact ihread more q'' hmore
  | case3 p held a q held' h hge =>
    obtain ⟨hread, hheld'⟩ := hx cs p held hp hheld
    rw [h] at hread hheld'
    rw [runMany, h]
    simp only [hge, if_false]
    exact Trial.staysIn_read (hread a q rfl) hheld' [a]

/-- The candidate that is set aside while the attempt is made points into the text as well. -/
theorem StaysInside.named (hx : x.StaysInside) (name : Expectation) :
    (named name x).StaysInside := by
  intro cs p held hp hheld
  obtain ⟨hread, hheld'⟩ := hx cs p none hp (fun _ hc => nomatch hc)
  cases h : x.run p none with
  | mk read held' =>
    rw [h] at hread hheld'
    cases held' with
    | none =>
      simp only [Attempt.named, h]
      exact ⟨hread, hheld⟩
    | some c =>
      rw [run_named h]
      exact ⟨hread, ((hheld' c rfl).named name p).addTo hheld⟩

end Together

/-! ## §5 The grammar stays in a text -/

theorem staysInside_char (c : Char) (expected : Expectation) : (char c expected).StaysInside := by
  intro cs p held hp hheld
  by_cases h : p.rest.head? = some c
  · obtain ⟨rest, hrest⟩ := List.head?_eq_some_iff.mp h
    have hrun : (char c expected).run p held = ⟨some ((), ⟨p.next, rest⟩), held⟩ := by
      simp [char, hrest]
    rw [hrun]
    exact Trial.staysIn_read (hp.next hrest) hheld ()
  · rw [run_char_of_ne h]
    exact Trial.staysIn_failed ((Candidate.pointsInto_here hp _).addTo hheld)

theorem staysInside_sign : sign.StaysInside := by
  intro cs p held hp hheld
  simp only [sign]
  split
  · next sgn rest h =>
    exact Trial.staysIn_read (hp.next (Sign.eq_cons_of_read? h)) hheld sgn
  · -- It is noticed behind the character, which is the end of the offending text
    have hhere : Candidate.PointsInto
        { Candidate.here p [.plus, .minus] with reach := p.next } cs :=
      ⟨(Candidate.pointsInto_here hp [.plus, .minus]).exists_offending, Nat.le_refl _⟩
    exact Trial.staysIn_failed (hhere.addTo hheld)

theorem staysInside_numeral : numeral.StaysInside := by
  intro cs p held hp hheld
  have hstop : ∀ c ∈ (Candidate.here p.afterDigits []).addTo held, c.PointsInto cs :=
    (Candidate.pointsInto_here hp.afterDigits []).addTo hheld
  cases h : Numeral.read? p.rest with
  | none =>
    rw [run_numeral_of_not_read h]
    exact Trial.staysIn_failed hstop
  | some read =>
    rw [run_numeral_of_read h]
    exact Trial.staysIn_read hp.afterDigits hstop read.1

theorem staysInside_noDice : noDice.StaysInside := by
  intro cs p held hp hheld
  simp only [noDice]
  split
  · next h => exact Trial.staysIn_failed ((Candidate.pointsInto_ofDice hp h).addTo hheld)
  · exact Trial.staysIn_read hp hheld ()

theorem staysInside_atEnd : atEnd.StaysInside := by
  intro cs p held hp hheld
  simp only [atEnd]
  split
  · exact Trial.staysIn_read hp hheld ()
  · exact Trial.staysIn_failed ((Candidate.pointsInto_here hp _).addTo hheld)

theorem staysInside_modifier : modifier.StaysInside := by
  apply StaysInside.named
  refine staysInside_sign.bind fun sign => ?_
  refine staysInside_numeral.bind fun size => ?_
  exact staysInside_noDice.bind fun _ => staysInside_pure _

theorem staysInside_term : term.StaysInside := by
  apply StaysInside.named
  refine staysInside_numeral.optional.bind fun count => ?_
  refine (staysInside_char 'd' .letterD).bind fun _ => ?_
  refine staysInside_numeral.bind fun sides => ?_
  exact staysInside_modifier.optional.bind fun _ => staysInside_pure _

theorem staysInside_joined : joined.StaysInside :=
  (staysInside_char '+' .plus).optional.bind fun _ => staysInside_term

theorem staysInside_sum : sum.StaysInside := by
  refine staysInside_term.bind fun first => StaysInside.bind ?_ fun more => staysInside_pure _
  refine staysInside_joined.many.bind fun more => ?_
  exact staysInside_atEnd.bind fun _ => staysInside_pure more

theorem staysInside_singleTerm : singleTerm.StaysInside :=
  staysInside_term.bind fun s => staysInside_atEnd.bind fun _ => staysInside_pure s

end Attempt

/-! ## §6 Syntax errors in a text -/

/-- The character at an offset is the first one behind as many bytes. -/
theorem get?_utf8Len {text : String} {before rest : List Char} (h : text.toList = before ++ rest) :
    String.Pos.Raw.get? text ⟨utf8Len before⟩ = rest.head? := by
  have hget := String.get?_of_valid before rest
  rwa [← h, String.ofList_toList] at hget

theorem isValid_utf8Len {text : String} {before rest : List Char}
    (h : text.toList = before ++ rest) : String.Pos.Raw.IsValid text ⟨utf8Len before⟩ := by
  refine String.Pos.Raw.isValid_iff_exists_append.mpr
    ⟨String.ofList before, String.ofList rest, ?_, (String.rawEndPos_ofList before).symm⟩
  rw [← String.ofList_append, ← h, String.ofList_toList]

/-- The words for what stands at an offset of a text. -/
def foundAt (text : String) (offset : Nat) : String :=
  match String.Pos.Raw.get? text ⟨offset⟩ with
  | some c => c.toString
  | none => "end of input"

/-- A syntax error is placed in a text: its two ends are in order and lie between characters of
the text, and its message is about what stands at the first one. -/
structure SyntaxError.IsPlacedIn (e : SyntaxError) (text : String) : Prop where
  start_le_stop : e.start ≤ e.stop
  stop_le : e.stop ≤ text.utf8ByteSize
  /-- The first end does not cut a character. -/
  start_isValid : String.Pos.Raw.IsValid text ⟨e.start⟩
  /-- The second end does not cut a character. -/
  stop_isValid : String.Pos.Raw.IsValid text ⟨e.stop⟩
  /-- The message names what stands at the first end as found. -/
  message_eq : ∃ expected : List Expectation, e.message =
    "found " ++ foundAt text e.start ++ " expected " ++
      Candidate.alternatives (expected.map Expectation.text)
  /-- No character stands there iff both ends are the end of the text. -/
  at_end_iff : String.Pos.Raw.get? text ⟨e.start⟩ = none ↔
    e.start = text.utf8ByteSize ∧ e.stop = text.utf8ByteSize

theorem Candidate.PointsInto.isPlacedIn {c : Candidate} {text : String}
    (h : c.PointsInto text.toList) : c.toSyntaxError.IsPlacedIn text := by
  obtain ⟨before, offending, after, htext, hstart, hstop, hfound, hend⟩ := h.exists_offending
  have htext' : text.toList = (before ++ offending) ++ after := by
    rw [htext, List.append_assoc]
  have hsize : text.utf8ByteSize = c.stop + utf8Len after := by
    rw [← utf8Len_toList, htext', utf8Len_append, hstop]
  have hlength : c.stop = c.start + utf8Len offending := by
    rw [hstop, utf8Len_append, hstart]
  have hget : String.Pos.Raw.get? text ⟨c.start⟩ = c.found := by
    rw [hstart, get?_utf8Len htext, hfound]
  constructor
  case start_le_stop => exact Nat.le.intro hlength.symm
  case stop_le => exact Nat.le.intro hsize.symm
  case start_isValid =>
    show String.Pos.Raw.IsValid text ⟨c.start⟩
    exact hstart ▸ isValid_utf8Len htext
  case stop_isValid =>
    show String.Pos.Raw.IsValid text ⟨c.stop⟩
    exact hstop ▸ isValid_utf8Len htext'
  case message_eq =>
    refine ⟨c.expected, ?_⟩
    show _ = "found " ++ foundAt text c.start ++ " expected " ++ _
    rw [foundAt, hget]
    rfl
  case at_end_iff =>
    show String.Pos.Raw.get? text ⟨c.start⟩ = none ↔
      c.start = text.utf8ByteSize ∧ c.stop = text.utf8ByteSize
    rw [hget, hfound, List.head?_eq_none_iff]
    constructor
    · intro hnil
      obtain ⟨rfl, rfl⟩ := List.append_eq_nil_iff.mp hnil
      rw [utf8Len_nil] at hsize hlength
      omega
    · intro hends
      -- What is as long as nothing is nothing
      have hoffending : offending = [] := utf8Len_eq_zero.mp (by omega)
      rw [hend hoffending, hoffending]
      rfl

namespace Candidate

variable {cs : List Char}

/-- The candidate that diagnoses a refused sum points into the text. -/
theorem pointsInto_ofSum (h : Spelling.readSum? cs = none) : (ofSum cs).PointsInto cs := by
  have hstays := Attempt.staysInside_sum cs ⟨0, cs⟩ none (.start cs) (fun _ hc => nomatch hc)
  rw [Attempt.run_sum_of_refused h] at hstays
  exact hstays.held _ rfl

theorem pointsInto_ofSingleTerm (h : Spelling.readTerm? cs = none) :
    (ofSingleTerm cs).PointsInto cs := by
  have hstays := Attempt.staysInside_singleTerm cs ⟨0, cs⟩ none (.start cs) (fun _ hc => nomatch hc)
  rw [Attempt.run_singleTerm_of_refused h] at hstays
  exact hstays.held _ rfl

end Candidate

/-- **A refusal is one syntax error in its place.** If the normal form of an expression is no sum,
the strict grammar refuses it with the normal form and one syntax error that is placed in it. The
same goes for a text that is read as it is. The error is the candidate that the attempts have left,
and there always is one. A text that is no single term leaves one as well, placed in it. -/
theorem refusal_is_placed :
    (∀ text : String, Spelling.readSum? (Text.normalize text).toList = none →
      ∃ e, Grammar.strict.parse text = .error (.malformed (Text.normalize text) [e]) ∧
        e.IsPlacedIn (Text.normalize text)) ∧
    (∀ text : String, Spelling.readSum? text.toList = none →
      ∃ c, Attempt.sum.run ⟨0, text.toList⟩ none = ⟨none, some c⟩ ∧
        Grammar.strict.spellings text = .error (.malformed text [c.toSyntaxError]) ∧
        c.toSyntaxError.IsPlacedIn text) ∧
    (∀ text : String, Spelling.readTerm? text.toList = none →
      Attempt.singleTerm.run ⟨0, text.toList⟩ none =
          ⟨none, some (Candidate.ofSingleTerm text.toList)⟩ ∧
        (Candidate.ofSingleTerm text.toList).toSyntaxError.IsPlacedIn text) := by
  refine ⟨fun text h => ?_, fun text h => ?_, fun text h => ?_⟩
  · exact ⟨_, Grammar.parse_strict_of_readSum?_eq_none h,
      (Candidate.pointsInto_ofSum h).isPlacedIn⟩
  · refine ⟨Candidate.ofSum text.toList, Attempt.run_sum_of_refused h, ?_,
      (Candidate.pointsInto_ofSum h).isPlacedIn⟩
    simp only [Grammar.spellings, h]
  · exact ⟨Attempt.run_singleTerm_of_refused h, (Candidate.pointsInto_ofSingleTerm h).isPlacedIn⟩

/-- A letter of two bytes behind the sides: the syntax error is at the two bytes. -/
theorem refusal_is_placed_at_letter :
    Spelling.readSum? (Text.normalize "2D6 É").toList = none ∧
      Spelling.readTerm? "2d6é".toList = none ∧
      (∃ e, Grammar.strict.parse "2D6 É" = .error (.malformed "2d6é" [e]) ∧
        e.IsPlacedIn "2d6é") ∧
      (∃ c, Attempt.sum.run ⟨0, "2d6é".toList⟩ none = ⟨none, some c⟩ ∧
        Grammar.strict.spellings "2d6é" = .error (.malformed "2d6é" [c.toSyntaxError]) ∧
        c.toSyntaxError.IsPlacedIn "2d6é") ∧
      Attempt.singleTerm.run ⟨0, "2d6é".toList⟩ none =
          ⟨none, some (Candidate.ofSingleTerm "2d6é".toList)⟩ ∧
        (Candidate.ofSingleTerm "2d6é".toList).toSyntaxError.IsPlacedIn "2d6é" := by
  have hnormal : Text.normalize "2D6 É" = "2d6é" := by decide
  have hread : Spelling.read? "2d6é".toList =
      some (⟨some ⟨['2'], by decide, by decide⟩, ⟨['6'], by decide, by decide⟩, none⟩, ['é']) := by
    decide
  have hsum : Spelling.readSum? "2d6é".toList = none := by
    rw [Spelling.readSum?_of_read?_eq_some hread,
      Spelling.readMore?_cons_of_read?_eq_none (by decide)]
    rfl
  have hterm : Spelling.readTerm? "2d6é".toList = none := by decide
  have hplaced := refusal_is_placed.1 "2D6 É"
  rw [hnormal] at hplaced ⊢
  exact ⟨hsum, hterm, hplaced hsum, refusal_is_placed.2.1 "2d6é" hsum,
    refusal_is_placed.2.2 "2d6é" hterm⟩

end DiceNotation
