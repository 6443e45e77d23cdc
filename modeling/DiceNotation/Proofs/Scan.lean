import DiceNotation.Proofs.Agreement
import DiceNotation.Rolling

/-!
# Steps of the Lenient Grammar

The lenient grammar cuts a text into pieces: terms that it takes and characters that it
passes over. A text is a sum iff there is a term and nothing is passed over but a `+`
that stands alone between two terms (`isSome_readSum?_iff_scan`). So the strict grammar
is the lenient one with this condition, and where it accepts a text both answer the same.
-/

namespace DiceNotation

namespace Spelling

/-! ## §1 Pieces of a text -/

/-- What one step of the lenient grammar makes of the front of a text. -/
inductive Piece where
  | taken (s : Spelling)
  | skipped (c : Char)
deriving DecidableEq

namespace Piece

def chars : Piece → List Char
  | taken s => s.chars
  | skipped c => [c]

def spelling? : Piece → Option Spelling
  | taken s => some s
  | skipped _ => none

end Piece

/-- The steps of the lenient grammar on a text: where a spelling can be read it is taken, else
one character is passed over. -/
def scan : List Char → List Piece
  | [] => []
  | c :: cs =>
    match _h : read? (c :: cs) with
    | some (s, rest) => .taken s :: scan rest
    | none => .skipped c :: scan cs
termination_by cs => cs.length
decreasing_by
  · exact length_lt_of_read? _h
  · exact Nat.lt_succ_self cs.length

theorem scan_of_read?_eq_some {cs rest : List Char} {s : Spelling}
    (h : read? cs = some (s, rest)) : scan cs = .taken s :: scan rest := by
  cases cs with
  | nil => exact absurd (length_lt_of_read? h) (Nat.not_lt_zero _)
  | cons c cs =>
    rw [scan]
    split
    · next h' =>
      obtain ⟨rfl, rfl⟩ := Prod.mk.inj (Option.some.inj (h'.symm.trans h))
      rfl
    · next h' => cases h'.symm.trans h

theorem scan_cons_of_read?_eq_none {c : Char} {cs : List Char} (h : read? (c :: cs) = none) :
    scan (c :: cs) = .skipped c :: scan cs := by
  rw [scan]
  split
  · next h' => cases h'.symm.trans h
  · rfl

/-- The terms that are taken are those that the lenient grammar finds. -/
theorem filterMap_spelling?_scan (cs : List Char) :
    (scan cs).filterMap Piece.spelling? = findAll cs := by
  induction cs using findAll.induct with
  | case1 => simp [scan, findAll]
  | case2 c cs s rest hread ih =>
    rw [scan_of_read?_eq_some hread, findAll_of_read?_eq_some hread, ← ih]
    rfl
  | case3 c cs hread ih =>
    rw [scan_cons_of_read?_eq_none hread, findAll_cons_of_read?_eq_none hread, ← ih]
    rfl

/-- The pieces make up the text. -/
theorem flatMap_chars_scan (cs : List Char) : (scan cs).flatMap Piece.chars = cs := by
  induction cs using findAll.induct with
  | case1 => simp [scan]
  | case2 c cs s rest hread ih =>
    rw [scan_of_read?_eq_some hread, List.flatMap_cons, ih]
    exact (eq_append_of_read? hread).symm
  | case3 c cs hread ih =>
    rw [scan_cons_of_read?_eq_none hread, List.flatMap_cons, ih]
    rfl

/-! ## §2 Separators -/

/-- Nothing is passed over but a `+` that stands alone between two terms. -/
def OnlySeparators (pieces : List Piece) : Prop :=
  ∀ before c after, pieces = before ++ .skipped c :: after →
    c = '+' ∧ (∃ s, before.getLast? = some (.taken s)) ∧ ∃ s, after.head? = some (.taken s)

/-- Pieces that may follow a term of a sum: terms with an optional `+` before each. -/
inductive Continues : List Piece → Prop where
  | nil : Continues []
  | taken (s : Spelling) {pieces : List Piece} : Continues pieces → Continues (.taken s :: pieces)
  | plus (s : Spelling) {pieces : List Piece} :
      Continues pieces → Continues (.skipped '+' :: .taken s :: pieces)

theorem continues_taken_iff (s : Spelling) (pieces : List Piece) :
    Continues (.taken s :: pieces) ↔ Continues pieces := by
  refine ⟨fun h => ?_, .taken s⟩
  cases h with
  | taken _ h => exact h

theorem continues_plus_taken_iff (s : Spelling) (pieces : List Piece) :
    Continues (.skipped '+' :: .taken s :: pieces) ↔ Continues pieces := by
  refine ⟨fun h => ?_, .plus s⟩
  cases h with
  | plus _ h => exact h

theorem Continues.exists_taken {c : Char} {pieces : List Piece}
    (h : Continues (.skipped c :: pieces)) : c = '+' ∧ ∃ s more, pieces = .taken s :: more := by
  cases h with
  | plus s _ => exact ⟨rfl, s, _, rfl⟩

theorem OnlySeparators.of_append {left pieces : List Piece} {s : Spelling}
    (h : OnlySeparators (left ++ .taken s :: pieces)) : OnlySeparators (.taken s :: pieces) := by
  intro before c after hpieces
  obtain ⟨hc, ⟨t, ht⟩, hafter⟩ := h (left ++ before) c after (by rw [hpieces, List.append_assoc])
  refine ⟨hc, ⟨t, ?_⟩, hafter⟩
  -- A term is the first piece, so a character that is passed over has a piece before it
  cases before with
  | nil => cases (List.cons.inj hpieces).1
  | cons p before => simpa [List.getLast?_append] using ht

theorem OnlySeparators.continues {s : Spelling} : ∀ {pieces : List Piece},
    OnlySeparators (.taken s :: pieces) → Continues pieces
  | [], _ => .nil
  | .taken t :: pieces, h => by
    have hrest : OnlySeparators ([.taken s] ++ .taken t :: pieces) := h
    exact .taken t (OnlySeparators.continues hrest.of_append)
  | .skipped c :: [], h => by
    -- A separator is never the last piece
    obtain ⟨-, -, t, ht⟩ := h [.taken s] c [] rfl
    cases ht
  | .skipped c :: .skipped d :: pieces, h => by
    -- Two characters in a row are no separator
    obtain ⟨-, -, t, ht⟩ := h [.taken s] c (.skipped d :: pieces) rfl
    cases ht
  | .skipped c :: .taken t :: pieces, h => by
    obtain ⟨rfl, -, -⟩ := h [.taken s] c (.taken t :: pieces) rfl
    have hrest : OnlySeparators ([.taken s, .skipped '+'] ++ .taken t :: pieces) := h
    exact .plus t (OnlySeparators.continues hrest.of_append)

theorem Continues.onlySeparators {pieces : List Piece} (h : Continues pieces) (s : Spelling) :
    OnlySeparators (.taken s :: pieces) := by
  induction h generalizing s with
  | nil =>
    intro before c after hpieces
    cases before <;> simp at hpieces
  | taken t _ ih =>
    intro before c after hpieces
    cases before with
    | nil => cases (List.cons.inj hpieces).1
    | cons p before =>
      obtain ⟨hc, ⟨u, hu⟩, hafter⟩ := ih t before c after (List.cons.inj hpieces).2
      exact ⟨hc, ⟨u, by simp [List.getLast?_cons, hu]⟩, hafter⟩
  | plus t _ ih =>
    intro before c after hpieces
    rcases before with _ | ⟨p, _ | ⟨q, before⟩⟩
    · cases (List.cons.inj hpieces).1
    · -- This is the `+` itself
      obtain ⟨rfl, hrest⟩ := List.cons.inj hpieces
      obtain ⟨hc, rfl⟩ := List.cons.inj hrest
      exact ⟨(Piece.skipped.inj hc).symm, ⟨s, rfl⟩, ⟨t, rfl⟩⟩
    · have hrest := (List.cons.inj (List.cons.inj hpieces).2).2
      obtain ⟨hc, ⟨u, hu⟩, hafter⟩ := ih t before c after hrest
      exact ⟨hc, ⟨u, by simp [List.getLast?_cons, hu]⟩, hafter⟩

/-! ## §3 The strict grammar -/

theorem scan_ne_taken_of_read?_eq_none {cs : List Char} (h : read? cs = none) (s : Spelling)
    (pieces : List Piece) : scan cs ≠ .taken s :: pieces := by
  cases cs with
  | nil => simp [scan]
  | cons c cs => simp [scan_cons_of_read?_eq_none h]

/-- Behind a term the strict grammar goes on to the end iff the lenient one passes over nothing but
separators. -/
theorem isSome_readMore?_iff_continues (cs : List Char) :
    (readMore? cs).isSome = true ↔ Continues (scan cs) := by
  induction cs using readMore?.induct with
  | case1 => simp [readMore?, scan, Continues.nil]
  | case2 c cs s rest hread ih =>
    rw [readMore?_of_read?_eq_some hread, Option.isSome_map, ih]
    by_cases hc : c = '+'
    · subst hc
      -- The `+` is dropped by one grammar and passed over by the other
      have hscan : scan cs = .taken s :: scan rest := scan_of_read?_eq_some hread
      rw [scan_cons_of_read?_eq_none (read?_plus cs), hscan, continues_plus_taken_iff]
    · rw [Sign.dropPlus_cons_of_ne hc] at hread
      rw [scan_of_read?_eq_some hread, continues_taken_iff]
  | case3 c cs hread =>
    rw [readMore?_cons_of_read?_eq_none hread]
    refine ⟨fun h => ?_, fun h => ?_⟩
    · cases h
    by_cases hc : c = '+'
    · subst hc
      rw [scan_cons_of_read?_eq_none (read?_plus cs)] at h
      obtain ⟨-, s, more, hscan⟩ := h.exists_taken
      exact absurd hscan (scan_ne_taken_of_read?_eq_none hread s more)
    · rw [Sign.dropPlus_cons_of_ne hc] at hread
      rw [scan_cons_of_read?_eq_none hread] at h
      exact absurd h.exists_taken.1 hc

/-- **The strict grammar is the lenient one that passes over nothing**, but for separators. -/
theorem isSome_readSum?_iff_scan (cs : List Char) :
    (readSum? cs).isSome = true ↔ findAll cs ≠ [] ∧ OnlySeparators (scan cs) := by
  cases hread : read? cs with
  | some read =>
    obtain ⟨first, rest⟩ := read
    have hsum : (readSum? cs).isSome = (readMore? rest).isSome := by
      simp only [readSum?, hread, Option.bind_eq_bind, Option.bind_some]
      cases readMore? rest <;> rfl
    rw [hsum, isSome_readMore?_iff_continues, findAll_of_read?_eq_some hread,
      scan_of_read?_eq_some hread]
    exact ⟨fun h => ⟨List.cons_ne_nil _ _, h.onlySeparators first⟩, fun h => h.2.continues⟩
  | none =>
    refine ⟨fun h => by simp [readSum?, hread] at h, ?_⟩
    rintro ⟨hfound, h⟩
    cases cs with
    | nil => exact absurd (by simp [findAll]) hfound
    | cons c cs =>
      -- The first character has nothing before it
      rw [scan_cons_of_read?_eq_none hread] at h
      obtain ⟨-, ⟨s, hs⟩, -⟩ := h [] c (scan cs) rfl
      cases hs

end Spelling

/-! ## §4 Expressions -/

theorem Grammar.parse_lenient_eq_strict {text : String}
    (h : ∀ t errors, strict.parse text ≠ .error (.malformed t errors)) :
    lenient.parse text = strict.parse text := by
  cases hsum : Spelling.readSum? (Text.normalize text).toList with
  | none => exact absurd (parse_strict_of_readSum?_eq_none hsum) (h _ _)
  | some terms => rw [parse_of_readSum? hsum, parse_of_readSum? hsum]

theorem Roller.rollText_eq_of_parse_eq {σ : Type} (r : Roller σ) {grammar grammar' : Grammar}
    {text : String} (h : grammar.parse text = grammar'.parse text) (s : σ) :
    r.rollText grammar text s = r.rollText grammar' text s := by
  simp only [rollText, Grammar.event, h]

/-- **The two grammars agree wherever both apply.** Unless the strict grammar refuses a text for
its syntax, the lenient one gives the same terms or the same error, and any roller is used in the
same way. The strict grammar reads a text iff of the pieces of the lenient one, which make up the
text, at least one is a term and all others are separators. -/
theorem grammars_agree :
    (∀ text : String, (∀ t errors, Grammar.strict.parse text ≠ .error (.malformed t errors)) →
      Grammar.lenient.parse text = Grammar.strict.parse text ∧
        ∀ (σ : Type) (r : Roller σ) (s : σ),
          r.rollText .lenient text s = r.rollText .strict text s) ∧
    ∀ cs : List Char,
      (Spelling.scan cs).filterMap Spelling.Piece.spelling? = Spelling.findAll cs ∧
        (Spelling.scan cs).flatMap Spelling.Piece.chars = cs ∧
        ((Spelling.readSum? cs).isSome = true ↔
          Spelling.findAll cs ≠ [] ∧ Spelling.OnlySeparators (Spelling.scan cs)) := by
  refine ⟨fun text h => ?_, fun cs => ?_⟩
  · have hparse := Grammar.parse_lenient_eq_strict h
    exact ⟨hparse, fun σ r s => r.rollText_eq_of_parse_eq hparse s⟩
  · exact ⟨Spelling.filterMap_spelling?_scan cs, Spelling.flatMap_chars_scan cs,
      Spelling.isSome_readSum?_iff_scan cs⟩

/-- Both grammars name the count that is out of range. -/
theorem grammars_agree_on_count :
    Grammar.strict.parse "2d6+101d4" = .error (.count "101") ∧
      Grammar.lenient.parse "2d6+101d4" = .error (.count "101") := by
  have hstrict : Grammar.strict.parse "2d6+101d4" = .error (.count "101") := by decide +kernel
  have hsyntax : ∀ t errors,
      Grammar.strict.parse "2d6+101d4" ≠ .error (.malformed t errors) := by
    intro t errors h
    rw [hstrict] at h
    cases h
  exact ⟨hstrict, (grammars_agree.1 _ hsyntax).1.trans hstrict⟩

end DiceNotation
