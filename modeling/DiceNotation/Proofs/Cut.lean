import DiceNotation.Proofs.Reading

/-!
# Cuts of Sums

A sum is a text that can be cut into terms with an optional `+` between neighbours. A
cut is *settled* when every term ends before what follows it: no number goes on, and no
modifier is the count of dice. The strict grammar never looks for cuts, it takes one
term after the other; yet it accepts a text iff there is a settled cut, and a text has
at most one. Main statements: `Cut.IsSettledOf.readSum?_eq`, its converse
`Cut.exists_isSettledOf_of_readSum?`, and `Cut.IsSettledOf.unique`.
-/

namespace DiceNotation

open Text (Numeral)

/-! ## §1 Cuts -/

/-- A further term of a sum, with or without a `+` before it. -/
structure Joined where
  /-- Whether a `+` stands before the term. -/
  plus : Bool
  /-- The term. -/
  spelling : Spelling
deriving DecidableEq

namespace Joined

/-- The characters of a further term and of the `+` before it. -/
def chars (j : Joined) : List Char :=
  (if j.plus then ['+'] else []) ++ j.spelling.chars

/-- A term and the further ones behind it all end before what follows them. -/
def SettledFrom (s : Spelling) : List Joined → Prop
  | [] => s.EndsBefore []
  | j :: more => s.EndsBefore ((j :: more).flatMap chars) ∧ SettledFrom j.spelling more

end Joined

/-- A text cut into terms: the first one and any number of further ones. -/
structure Cut where
  /-- The first term. -/
  first : Spelling
  /-- The further terms, each with its separator. -/
  more : List Joined
deriving DecidableEq

namespace Cut

/-- The text that is cut. -/
def chars (cut : Cut) : List Char :=
  cut.first.chars ++ cut.more.flatMap Joined.chars

/-- The terms of a cut. -/
def spellings (cut : Cut) : List Spelling :=
  cut.first :: cut.more.map Joined.spelling

/-- A settled cut of a text: no number of a term goes on behind it, and no dice stand behind
a modifier. -/
structure IsSettledOf (cut : Cut) (cs : List Char) : Prop where
  /-- The pieces make up the text. -/
  chars_eq : cut.chars = cs
  /-- Every term ends before what follows it. -/
  settled : Joined.SettledFrom cut.first cut.more

end Cut

/-! ## §2 Where two terms meet -/

namespace Spelling

/-- A spelling starts with a digit or with its letter. -/
theorem chars_append_ne_cons (s : Spelling) (rest : List Char) {c : Char}
    (hdigit : c.isDigit = false) (hd : c ≠ 'd') (cs : List Char) : s.chars ++ rest ≠ c :: cs := by
  intro h
  have hfront : startsDigit (c :: cs) = false := hdigit
  -- Behind the digits at the front of a spelling stands its letter
  have hdrop := s.dropWhile_chars_append rest
  rw [h, dropWhile_eq_self hfront] at hdrop
  exact hd (List.cons.inj hdrop).1

theorem readModifier?_chars_append (s : Spelling) (rest : List Char) :
    readModifier? (s.chars ++ rest) = none := by
  cases h : readModifier? (s.chars ++ rest) with
  | none => rfl
  | some read =>
    -- It would start with the sign
    obtain ⟨m, after⟩ := read
    have htext := (readModifier?_eq_some_iff.mp h).1
    have hd : m.sign.char ≠ 'd' := by cases m.sign <;> decide
    exact absurd htext (s.chars_append_ne_cons rest m.sign.isDigit_char hd _)

/-- The `+` before a spelling is not read as the sign of a modifier: the digits behind it
are a count. -/
theorem readModifier?_plus_chars_append (s : Spelling) (rest : List Char) :
    readModifier? ('+' :: (s.chars ++ rest)) = none := by
  cases h : readModifier? ('+' :: (s.chars ++ rest)) with
  | none => rfl
  | some read =>
    obtain ⟨m, after⟩ := read
    obtain ⟨htext, hdigit, hdice⟩ := readModifier?_eq_some_iff.mp h
    have hsize : s.chars ++ rest = m.size.digits ++ after := (List.cons.inj htext).2
    -- Behind the same digits stand the dice on one side and what follows the modifier on the other
    have hdrop := s.dropWhile_chars_append rest
    rw [hsize, dropWhile_digits m.size.isDigit_of_mem hdigit] at hdrop
    rw [hdrop, startsDice_append] at hdice
    cases hdice

end Spelling

namespace Joined

/-- No modifier is read where a further term stands, or none. -/
theorem readModifier?_flatMap_chars (more : List Joined) :
    Spelling.readModifier? (more.flatMap chars) = none := by
  rcases more with _ | ⟨⟨plus, s⟩, more⟩
  · rfl
  · cases plus with
    | true => exact s.readModifier?_plus_chars_append (more.flatMap chars)
    | false => exact s.readModifier?_chars_append (more.flatMap chars)

theorem dropPlus_chars_append (j : Joined) (rest : List Char) :
    Sign.dropPlus (j.chars ++ rest) = j.spelling.chars ++ rest := by
  obtain ⟨plus, s⟩ := j
  cases plus with
  | true => rfl
  | false =>
    show Sign.dropPlus (s.chars ++ rest) = s.chars ++ rest
    unfold Sign.dropPlus
    -- A spelling does not start with a `+`
    split
    · next h => exact absurd h (s.chars_append_ne_cons rest (by decide) (by decide) _)
    · rfl

theorem exists_chars_append_of_dropPlus {cs rest : List Char} {s : Spelling}
    (h : Sign.dropPlus cs = s.chars ++ rest) : ∃ plus, (⟨plus, s⟩ : Joined).chars ++ rest = cs := by
  unfold Sign.dropPlus at h
  split at h
  · exact ⟨true, congrArg ('+' :: ·) h.symm⟩
  · exact ⟨false, h.symm⟩

/-! ## §3 The reader follows a settled cut -/

theorem SettledFrom.endsBefore {s : Spelling} {more : List Joined} (h : SettledFrom s more) :
    s.EndsBefore (more.flatMap chars) := by
  cases more with
  | nil => exact h
  | cons j more => exact h.1

/-- A term of a settled cut is read as it is cut. -/
theorem SettledFrom.read?_eq {s : Spelling} {more : List Joined} (h : SettledFrom s more) :
    Spelling.read? (s.chars ++ more.flatMap chars) = some (s, more.flatMap chars) :=
  Spelling.read?_eq_some_iff.mpr ⟨rfl, h.endsBefore, fun _ => readModifier?_flatMap_chars more⟩

theorem SettledFrom.readMore?_eq {s : Spelling} {more : List Joined} (h : SettledFrom s more) :
    Spelling.readMore? (more.flatMap chars) = some (more.map spelling) := by
  induction more generalizing s with
  | nil => simp [Spelling.readMore?]
  | cons j more ih =>
    -- The next term is read behind its separator, the others by induction
    have hread : Spelling.read? (Sign.dropPlus ((j :: more).flatMap chars)) =
        some (j.spelling, more.flatMap chars) := by
      rw [List.flatMap_cons, dropPlus_chars_append]
      exact h.2.read?_eq
    rw [Spelling.readMore?_of_read?_eq_some hread, ih h.2]
    rfl

/-! ## §4 The reader leaves a settled cut -/

/-- Further terms that are read behind a term that ends there are a settled cut. -/
theorem exists_settledFrom_of_readMore? {cs : List Char} {terms : List Spelling}
    (h : Spelling.readMore? cs = some terms) {s : Spelling} (hend : s.EndsBefore cs) :
    ∃ more : List Joined,
      more.flatMap chars = cs ∧ more.map spelling = terms ∧ SettledFrom s more := by
  induction cs using Spelling.readMore?.induct generalizing terms s with
  | case1 =>
    simp only [Spelling.readMore?, Option.some.injEq] at h
    exact ⟨[], rfl, by simpa using h, hend⟩
  | case2 c cs t rest hread ih =>
    rw [Spelling.readMore?_of_read?_eq_some hread] at h
    obtain ⟨terms, hmore, rfl⟩ := Option.map_eq_some_iff.mp h
    obtain ⟨htext, htend, -⟩ := Spelling.read?_eq_some_iff.mp hread
    obtain ⟨more, rfl, rfl, hsettled⟩ := ih hmore htend
    -- Whether a separator was dropped is all that the reader forgets
    obtain ⟨plus, hchars⟩ := exists_chars_append_of_dropPlus htext
    refine ⟨⟨plus, t⟩ :: more, hchars, rfl, ?_, hsettled⟩
    rwa [List.flatMap_cons, hchars]
  | case3 c cs hread =>
    rw [Spelling.readMore?_cons_of_read?_eq_none hread] at h
    cases h

/-! ## §5 Separators -/

theorem eq_of_chars_eq {j j' : Joined} (hterm : j.spelling = j'.spelling)
    (hchars : j.chars = j'.chars) : j = j' := by
  obtain ⟨plus, s⟩ := j
  obtain ⟨plus', s'⟩ := j'
  obtain rfl : s = s' := hterm
  have hlength := congrArg List.length hchars
  cases plus <;> cases plus' <;> simp [chars] at hlength ⊢

/-- The text and the terms of a cut say where its separators are. -/
theorem eq_of_flatMap_chars_eq {more more' : List Joined}
    (hterms : more.map spelling = more'.map spelling)
    (hchars : more.flatMap chars = more'.flatMap chars) : more = more' := by
  induction more generalizing more' with
  | nil => exact (List.map_eq_nil_iff.mp hterms.symm).symm
  | cons j more ih =>
    cases more' with
    | nil => cases hterms
    | cons j' more' =>
      obtain ⟨hterm, hterms⟩ := List.cons.inj hterms
      rw [List.flatMap_cons, List.flatMap_cons] at hchars
      -- Without the separators the rest is the same, hence so are the separators
      have hrest : more.flatMap chars = more'.flatMap chars := by
        have hdrop := congrArg Sign.dropPlus hchars
        rw [dropPlus_chars_append, dropPlus_chars_append, hterm] at hdrop
        exact List.append_cancel_left hdrop
      rw [hrest] at hchars
      rw [eq_of_chars_eq hterm (List.append_cancel_right hchars), ih hterms hrest]

end Joined

/-! ## §6 The strict grammar -/

namespace Cut

theorem IsSettledOf.readSum?_eq {cut : Cut} {cs : List Char} (h : cut.IsSettledOf cs) :
    Spelling.readSum? cs = some cut.spellings := by
  obtain ⟨rfl, hsettled⟩ := h
  simp [Spelling.readSum?, chars, hsettled.read?_eq, hsettled.readMore?_eq, spellings]

theorem exists_isSettledOf_of_readSum? {cs : List Char} {terms : List Spelling}
    (h : Spelling.readSum? cs = some terms) :
    ∃ cut : Cut, cut.IsSettledOf cs ∧ cut.spellings = terms := by
  simp only [Spelling.readSum?, Option.bind_eq_bind, Option.bind_eq_some_iff] at h
  obtain ⟨⟨first, rest⟩, hfirst, more, hmore, h⟩ := h
  obtain rfl := Option.some.inj h
  obtain ⟨rfl, hend, -⟩ := Spelling.read?_eq_some_iff.mp hfirst
  obtain ⟨more, rfl, rfl, hsettled⟩ := Joined.exists_settledFrom_of_readMore? hmore hend
  exact ⟨⟨first, more⟩, ⟨rfl, hsettled⟩, rfl⟩

/-- A text has at most one settled cut. -/
theorem IsSettledOf.unique {cut cut' : Cut} {cs : List Char} (h : cut.IsSettledOf cs)
    (h' : cut'.IsSettledOf cs) : cut = cut' := by
  -- The strict grammar reads both, so their terms are the same
  have hterms : cut.spellings = cut'.spellings :=
    Option.some.inj (h.readSum?_eq.symm.trans h'.readSum?_eq)
  obtain ⟨first, more⟩ := cut
  obtain ⟨first', more'⟩ := cut'
  obtain ⟨rfl, hmore⟩ := List.cons.inj hterms
  have hchars : more.flatMap Joined.chars = more'.flatMap Joined.chars :=
    List.append_cancel_left (h.chars_eq.trans h'.chars_eq.symm)
  exact congrArg (Cut.mk first) (Joined.eq_of_flatMap_chars_eq hmore hchars)

end Cut

/-- **The strict grammar accepts exactly its language, and it is unambiguous.** A text is read
with some terms iff it can be cut into them so that every term ends before what follows it, and
there is no second way to cut it so. -/
theorem readSum?_iff_settled_cut (cs : List Char) :
    (∀ terms : List Spelling, Spelling.readSum? cs = some terms ↔
      ∃ cut : Cut, cut.IsSettledOf cs ∧ cut.spellings = terms) ∧
    ∀ cut cut' : Cut, cut.IsSettledOf cs → cut'.IsSettledOf cs → cut = cut' := by
  refine ⟨fun terms => ⟨fun h => ?_, fun h => ?_⟩, fun cut cut' hcut hcut' => ?_⟩
  · exact Cut.exists_isSettledOf_of_readSum? h
  · obtain ⟨cut, hcut, rfl⟩ := h
    exact hcut.readSum?_eq
  · exact hcut.unique hcut'

end DiceNotation
