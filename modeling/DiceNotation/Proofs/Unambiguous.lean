import DiceNotation.Proofs.Writing

/-!
# Texts of Tallies

A tally is written without any quoting: faces are joined with `+` in front of a signed
modifier, outcomes with ` | `, and the expression, which may be any text, stands before it
all. Still no two tallies have one text (`tally_text_inj`).

From the left an outcome is cut out of any text that it starts (`Outcome.eq_of_text_append`),
and so are joined items that can be cut out one by one (`eq_of_intercalate_append`). The
expression may look like outcomes, but it ends at the last colon that no bracket follows
(`eq_of_append_colon`).
-/

namespace DiceNotation

open Text (Numeral)

/-! ## §1 Cutting texts -/

/-- Texts are cut in one way at the first place of a character. -/
theorem eq_of_append_cons {c : Char} {a a' b b' : List Char} (ha : c ∉ a) (ha' : c ∉ a')
    (h : a ++ c :: b = a' ++ c :: b') : a = a' ∧ b = b' := by
  induction a generalizing a' with
  | nil =>
    cases a' with
    | nil => exact ⟨rfl, (List.cons.inj h).2⟩
    | cons x a' =>
      obtain ⟨rfl, -⟩ := List.cons.inj h
      exact absurd List.mem_cons_self ha'
  | cons x a ih =>
    cases a' with
    | nil =>
      obtain ⟨rfl, -⟩ := List.cons.inj h
      exact absurd List.mem_cons_self ha
    | cons x' a' =>
      obtain ⟨rfl, hmore⟩ := List.cons.inj h
      obtain ⟨rfl, rfl⟩ := ih (fun hc => ha (List.mem_cons_of_mem x hc))
        (fun hc => ha' (List.mem_cons_of_mem x hc)) hmore
      exact ⟨rfl, rfl⟩

/-! ## §2 Joined items -/

section Items

variable {α : Type} (text : α → List Char) (sep : List Char)

/-- The items are written so that they can be told apart one after the other, if what stands
behind them is of some kind, as the separator and what follows it are. -/
structure TellsApart (behind : List Char → Prop) : Prop where
  item : ∀ {a a' : α} {rest rest' : List Char}, behind rest → behind rest' →
    text a ++ rest = text a' ++ rest' → a = a' ∧ rest = rest'
  separator : ∀ rest, behind (sep ++ rest)

/-- What may stand behind joined items: neither a separator nor another item. -/
structure EndsItems (behind : List Char → Prop) (rest : List Char) : Prop where
  behind : behind rest
  no_separator : ¬ sep <+: rest
  no_item : ∀ (a : α) (cs : List Char), text a ++ cs ≠ rest

variable {text sep} {behind : List Char → Prop}

theorem intercalate_cons_eq_flatMap (part : List Char) (parts : List (List Char)) :
    sep.intercalate (part :: parts) = part ++ parts.flatMap (sep ++ ·) := by
  induction parts generalizing part with
  | nil => simp
  | cons next parts ih =>
    rw [List.intercalate_cons_cons, ih, List.flatMap_cons]
    simp only [List.append_assoc]

/-- Behind an item stands a separator or the end of all items. -/
theorem TellsApart.behind_flatMap (htext : TellsApart text sep behind) {rest : List Char}
    (hrest : behind rest) (items : List α) :
    behind (items.flatMap (fun a => sep ++ text a) ++ rest) := by
  cases items with
  | nil => exact hrest
  | cons a items =>
    rw [List.flatMap_cons, List.append_assoc, List.append_assoc]
    exact htext.separator _

theorem TellsApart.eq_of_flatMap_append (htext : TellsApart text sep behind)
    {rest rest' : List Char} (hrest : EndsItems text sep behind rest)
    (hrest' : EndsItems text sep behind rest') {items items' : List α}
    (h : items.flatMap (fun a => sep ++ text a) ++ rest =
      items'.flatMap (fun a => sep ++ text a) ++ rest') : items = items' ∧ rest = rest' := by
  induction items generalizing items' with
  | nil =>
    cases items' with
    | nil => exact ⟨rfl, h⟩
    | cons a' items' =>
      rw [List.flatMap_cons, List.append_assoc, List.append_assoc] at h
      exact absurd ⟨_, h.symm⟩ hrest.no_separator
  | cons a items ih =>
    rw [List.flatMap_cons, List.append_assoc, List.append_assoc] at h
    cases items' with
    | nil => exact absurd ⟨_, h⟩ hrest'.no_separator
    | cons a' items' =>
      -- The separators are the same, then the items, then what is behind them
      rw [List.flatMap_cons, List.append_assoc, List.append_assoc] at h
      obtain ⟨rfl, hmore⟩ := htext.item (htext.behind_flatMap hrest.behind items)
        (htext.behind_flatMap hrest'.behind items') (List.append_cancel_left h)
      obtain ⟨rfl, rfl⟩ := ih hmore
      exact ⟨rfl, rfl⟩

/-- Joined items and what stands behind them are the parts of one text in one way only. -/
theorem TellsApart.eq_of_intercalate_append (htext : TellsApart text sep behind)
    {rest rest' : List Char} (hrest : EndsItems text sep behind rest)
    (hrest' : EndsItems text sep behind rest') {items items' : List α}
    (h : sep.intercalate (items.map text) ++ rest = sep.intercalate (items'.map text) ++ rest') :
    items = items' ∧ rest = rest' := by
  cases items with
  | nil =>
    cases items' with
    | nil => exact ⟨rfl, h⟩
    | cons a' items' =>
      rw [List.map_cons, intercalate_cons_eq_flatMap, List.append_assoc] at h
      exact absurd h.symm (hrest.no_item a' _)
  | cons a items =>
    rw [List.map_cons, intercalate_cons_eq_flatMap, List.append_assoc, List.flatMap_map] at h
    cases items' with
    | nil => exact absurd h (hrest'.no_item a _)
    | cons a' items' =>
      rw [List.map_cons, intercalate_cons_eq_flatMap, List.append_assoc, List.flatMap_map] at h
      obtain ⟨rfl, hmore⟩ := htext.item (htext.behind_flatMap hrest.behind items)
        (htext.behind_flatMap hrest'.behind items') h
      obtain ⟨rfl, rfl⟩ := htext.eq_of_flatMap_append hrest hrest' hmore
      exact ⟨rfl, rfl⟩

end Items

/-! ## §3 Characters of outcomes -/

theorem exists_numeral_toString (n : Nat) :
    ∃ numeral : Numeral, numeral.digits = (toString n).toList ∧ numeral.value = n :=
  (writesNumber_toString n).exists_numeral

theorem isNotation_of_mem_toString (n : Nat) : ∀ c ∈ (toString n).toList, isNotation c = true := by
  obtain ⟨numeral, hdigits, -⟩ := exists_numeral_toString n
  intro c hc
  rw [← hdigits] at hc
  exact isNotation_of_isDigit (numeral.isDigit_of_mem c hc)

/-- What is true of all characters of the parts and of the separator is true of all. -/
theorem forall_mem_intercalate {p : Char → Prop} {sep : List Char} {parts : List (List Char)}
    (hsep : ∀ c ∈ sep, p c) (hparts : ∀ part ∈ parts, ∀ c ∈ part, p c) :
    ∀ c ∈ sep.intercalate parts, p c := by
  cases parts with
  | nil => simp
  | cons part parts =>
    intro c hc
    simp only [intercalate_cons_eq_flatMap, List.mem_append, List.mem_flatMap] at hc
    rcases hc with hc | ⟨part', hpart', hc | hc⟩
    · exact hparts part List.mem_cons_self c hc
    · exact hsep c hc
    · exact hparts part' (List.mem_cons_of_mem part hpart') c hc

namespace Term

theorem isNotation_of_mem_diceText (t : Term) : ∀ c ∈ t.diceText.toList, isNotation c = true := by
  intro c hc
  simp only [diceText, String.toList_append, List.mem_append] at hc
  rcases hc with (hc | hc) | hc
  · exact isNotation_of_mem_toString t.count c hc
  · rw [List.mem_singleton.mp hc]
    rfl
  · exact isNotation_of_mem_toString t.sides c hc

/-- The count comes first. -/
theorem startsDigit_diceText_append (t : Term) (rest : List Char) :
    startsDigit (t.diceText.toList ++ rest) = true := by
  obtain ⟨numeral, hdigits, -⟩ := exists_numeral_toString t.count
  obtain ⟨c, cs, hcons, hc⟩ := numeral.exists_digits_eq_cons
  have htext : t.diceText.toList = numeral.digits ++ ("d" ++ toString t.sides).toList := by
    simp [diceText, hdigits]
  rw [htext, hcons]
  exact hc

theorem isNotation_of_mem_modifierText (t : Term) :
    ∀ c ∈ t.modifierText.toList, isNotation c = true := by
  obtain ⟨modifier, hchars, -⟩ := (writesModifier_modifierText t).exists_modifier
  rw [← hchars]
  cases modifier with
  | none => simp
  | some m => exact m.isNotation_of_mem

/-- Canonical notation tells terms apart, since it is read as the term that it is about. -/
theorem eq_of_text_eq {t t' : Term} (h : t.text = t'.text) : t = t' := by
  have hparse := parse_canonicalText (List.cons_ne_nil t []) .strict
  have hparse' := parse_canonicalText (List.cons_ne_nil t' []) .strict
  have hsame : canonicalText [t] = canonicalText [t'] := by simp [canonicalText, h]
  rw [hsame, hparse'] at hparse
  exact (List.cons.inj (Except.ok.inj hparse)).1.symm

end Term

theorem Score.isNotation_of_mem_text (s : Score) : ∀ c ∈ s.text.toList, isNotation c = true := by
  intro c hc
  by_cases hsign : 0 ≤ s.toInt
  · have htext : s.text.toList = (toString s.toInt.toNat).toList := by
      simp [text, Int.repr_eq_if, hsign]
    rw [htext] at hc
    exact isNotation_of_mem_toString s.toInt.toNat c hc
  · have htext : s.text.toList = '-' :: (toString (-s.toInt).toNat).toList := by
      simp [text, Int.repr_eq_if, hsign]
    rw [htext] at hc
    rcases List.mem_cons.mp hc with rfl | hc
    · rfl
    · exact isNotation_of_mem_toString (-s.toInt).toNat c hc

/-! ## §4 Outcomes -/

/-- Faces can be told apart before anything but a digit. -/
theorem tellsApart_faces :
    TellsApart (fun face : Nat => (toString face).toList) ['+'] (startsDigit · = false) where
  item := by
    intro face face' rest rest' hrest hrest' h
    obtain ⟨numeral, hdigits, rfl⟩ := exists_numeral_toString face
    obtain ⟨numeral', hdigits', rfl⟩ := exists_numeral_toString face'
    rw [← hdigits, ← hdigits'] at h
    -- The longest runs of digits at the front are the faces
    have hread : Numeral.read? (numeral.digits ++ rest) = some (numeral, rest) :=
      Numeral.read?_eq_some_iff.mpr ⟨rfl, hrest⟩
    have hread' : Numeral.read? (numeral.digits ++ rest) = some (numeral', rest') :=
      Numeral.read?_eq_some_iff.mpr ⟨h, hrest'⟩
    obtain ⟨rfl, rfl⟩ := Prod.mk.inj (Option.some.inj (hread.symm.trans hread'))
    exact ⟨rfl, rfl⟩
  separator := fun _ => rfl

namespace Outcome

/-- The faces of an outcome as they are written. -/
def facesText (o : Outcome) : String :=
  "+".intercalate (o.faces.map fun face => toString face)

theorem toList_facesText (o : Outcome) :
    o.facesText.toList = ['+'].intercalate (o.faces.map fun face => (toString face).toList) := by
  simp [facesText, String.toList_intercalate, Function.comp_def]

theorem isNotation_of_mem_facesText (o : Outcome) : ∀ c ∈ o.facesText.toList, isNotation c = true := by
  rw [toList_facesText]
  apply forall_mem_intercalate (p := (isNotation · = true)) (List.forall_mem_singleton.mpr rfl)
  intro part hpart
  obtain ⟨face, -, rfl⟩ := List.mem_map.mp hpart
  exact isNotation_of_mem_toString face

theorem faces_eq_of_facesText_eq {o o' : Outcome} (h : o.facesText = o'.facesText) :
    o.faces = o'.faces := by
  have hend : EndsItems (fun face : Nat => (toString face).toList) ['+'] (startsDigit · = false) [] := by
    refine ⟨rfl, by simp, ?_⟩
    intro face cs hcs
    obtain ⟨numeral, hdigits, -⟩ := exists_numeral_toString face
    rw [← hdigits] at hcs
    exact numeral.nonempty (List.append_eq_nil_iff.mp hcs).1
  have hchars := congrArg String.toList h
  rw [toList_facesText, toList_facesText] at hchars
  have happend := congrArg (· ++ []) hchars
  exact (tellsApart_faces.eq_of_intercalate_append hend hend happend).1

/-- The parts of the text of an outcome. -/
theorem toList_text (o : Outcome) :
    o.text.toList = o.term.diceText.toList ++ ':' :: ' ' :: '[' :: (o.facesText.toList ++
      ']' :: (o.term.modifierText.toList ++
        ' ' :: '=' :: ' ' :: (Score.text o.subtotal).toList)) := by
  simp [text, facesText]

/-- The text of an outcome is cut out of any text that it starts. -/
theorem eq_of_text_append {o o' : Outcome} {rest rest' : List Char}
    (h : o.text.toList ++ rest = o'.text.toList ++ rest') : o = o' ∧ rest = rest' := by
  have hsame : o = o' := by
    simp only [toList_text, List.append_assoc, List.cons_append] at h
    -- The dice end at the colon, the faces at the bracket, and the modifier at the space
    obtain ⟨hdice, h⟩ := eq_of_append_cons (notMem_of_kind rfl o.term.isNotation_of_mem_diceText)
      (notMem_of_kind rfl o'.term.isNotation_of_mem_diceText) h
    obtain ⟨hfaces, h⟩ := eq_of_append_cons (notMem_of_kind rfl o.isNotation_of_mem_facesText)
      (notMem_of_kind rfl o'.isNotation_of_mem_facesText) (List.cons.inj (List.cons.inj h).2).2
    obtain ⟨hmodifier, -⟩ :=
      eq_of_append_cons (notMem_of_kind rfl o.term.isNotation_of_mem_modifierText)
        (notMem_of_kind rfl o'.term.isNotation_of_mem_modifierText) h
    have hterm : o.term = o'.term := by
      apply Term.eq_of_text_eq
      rw [Term.text, Term.text, String.toList_inj.mp hdice, String.toList_inj.mp hmodifier]
    obtain ⟨term, faces⟩ := o
    obtain ⟨term', faces'⟩ := o'
    rw [Outcome.mk.injEq]
    exact ⟨hterm, faces_eq_of_facesText_eq (String.toList_inj.mp hfaces)⟩
  subst hsame
  exact ⟨rfl, List.append_cancel_left h⟩

theorem startsDigit_text_append (o : Outcome) (rest : List Char) :
    startsDigit (o.text.toList ++ rest) = true := by
  rw [toList_text, List.append_assoc]
  exact o.term.startsDigit_diceText_append _

end Outcome

/-! ## §5 Breakdowns -/

theorem tellsApart_outcomes :
    TellsApart (fun o : Outcome => o.text.toList) [' ', '|', ' '] fun _ => True where
  item := fun _ _ h => Outcome.eq_of_text_append h
  separator := fun _ => trivial

namespace Tally

theorem toList_breakdown (t : Tally) :
    t.breakdown.toList = [' ', '|', ' '].intercalate (t.outcomes.map fun o => o.text.toList) := by
  simp [breakdown, fragments, String.toList_intercalate, Function.comp_def]

/-- Outcomes end before a text that starts with neither a digit nor a separator. -/
theorem endsItems_of_not_starts {rest : List Char} (hdigit : startsDigit rest = false)
    (hsep : ¬ [' ', '|', ' '] <+: rest) :
    EndsItems (fun o : Outcome => o.text.toList) [' ', '|', ' '] (fun _ => True) rest where
  behind := trivial
  no_separator := hsep
  no_item := by
    rintro o cs rfl
    rw [o.startsDigit_text_append] at hdigit
    cases hdigit

/-- A breakdown and such a text are the parts of one text in one way only. -/
theorem outcomes_eq_of_breakdown_append {t t' : Tally} {rest rest' : List Char}
    (hdigit : startsDigit rest = false) (hsep : ¬ [' ', '|', ' '] <+: rest)
    (hdigit' : startsDigit rest' = false) (hsep' : ¬ [' ', '|', ' '] <+: rest')
    (h : t.breakdown.toList ++ rest = t'.breakdown.toList ++ rest') :
    t.outcomes = t'.outcomes := by
  rw [toList_breakdown, toList_breakdown] at h
  exact (tellsApart_outcomes.eq_of_intercalate_append (endsItems_of_not_starts hdigit hsep)
    (endsItems_of_not_starts hdigit' hsep') h).1

theorem outcomes_eq_of_breakdown_eq {t t' : Tally} (h : t.breakdown = t'.breakdown) :
    t.outcomes = t'.outcomes := by
  have hsep : ¬ [' ', '|', ' '] <+: ([] : List Char) := by simp
  apply outcomes_eq_of_breakdown_append rfl hsep rfl hsep
  rw [h]

end Tally

/-! ## §6 The expression -/

/-- Every colon is directly followed by the bracket of an outcome. -/
def ColonsBeforeBrackets (cs : List Char) : Prop :=
  ∀ before after, cs = before ++ ':' :: after → [' ', '['] <+: after

namespace ColonsBeforeBrackets

theorem of_notMem {cs : List Char} (h : ':' ∉ cs) : ColonsBeforeBrackets cs := by
  rintro before after rfl
  simp at h

theorem append {a b : List Char} (ha : ColonsBeforeBrackets a) (hb : ColonsBeforeBrackets b) :
    ColonsBeforeBrackets (a ++ b) := by
  intro before after h
  obtain ⟨c, rfl, hc⟩ | ⟨c, rfl, hc⟩ := List.append_eq_append_iff.mp h
  · exact hb c after hc
  · cases c with
    | nil => exact hb [] after hc.symm
    | cons x c =>
      -- The colon stands in the first part, and the bracket does, too
      obtain ⟨rfl, rfl⟩ := List.cons.inj hc
      exact (ha before c rfl).trans (List.prefix_append c b)

theorem bracket : ColonsBeforeBrackets [':', ' ', '['] := by
  intro before after h
  cases before with
  | nil =>
    obtain ⟨-, rfl⟩ := List.cons.inj h
    exact List.prefix_rfl
  | cons x before =>
    -- Behind the colon there is no other one
    obtain ⟨-, hmore⟩ := List.cons.inj h
    have hno : ':' ∉ [' ', '['] := by decide
    rw [hmore] at hno
    simp at hno

theorem outcome (o : Outcome) : ColonsBeforeBrackets o.text.toList := by
  have hdice : ':' ∉ o.term.diceText.toList := notMem_of_kind rfl o.term.isNotation_of_mem_diceText
  have hfaces : ':' ∉ o.facesText.toList := notMem_of_kind rfl o.isNotation_of_mem_facesText
  have hmodifier : ':' ∉ o.term.modifierText.toList :=
    notMem_of_kind rfl o.term.isNotation_of_mem_modifierText
  have hsubtotal : ':' ∉ (Score.text o.subtotal).toList :=
    notMem_of_kind rfl o.subtotal.isNotation_of_mem_text
  have hbehind : ':' ∉ o.facesText.toList ++ ']' :: (o.term.modifierText.toList ++
      ' ' :: '=' :: ' ' :: (Score.text o.subtotal).toList) := by
    simp [hfaces, hmodifier, hsubtotal]
  rw [o.toList_text]
  exact (of_notMem hdice).append (bracket.append (of_notMem hbehind))

theorem breakdown (t : Tally) : ColonsBeforeBrackets t.breakdown.toList := by
  have hsep : ColonsBeforeBrackets [' ', '|', ' '] := of_notMem (by decide)
  rw [t.toList_breakdown]
  generalize t.outcomes = outcomes
  induction outcomes with
  | nil => exact of_notMem (by simp)
  | cons o outcomes ih =>
    cases outcomes with
    | nil => simpa using outcome o
    | cons next outcomes =>
      rw [List.map_cons, List.map_cons, List.intercalate_cons_cons]
      exact ((outcome o).append hsep).append ih

/-- Behind such a text, a colon that no bracket follows is the one in front of it. -/
theorem eq_nil_of_colon {tail tail' c : List Char} (h : ColonsBeforeBrackets tail)
    (hbracket : tail'.head? ≠ some '[') (heq : ':' :: ' ' :: tail = c ++ ':' :: ' ' :: tail') :
    c = [] := by
  rcases c with _ | ⟨x, _ | ⟨y, c⟩⟩
  · rfl
  · simp at heq
  · obtain ⟨-, heq⟩ := List.cons.inj heq
    obtain ⟨-, htail⟩ := List.cons.inj heq
    obtain ⟨more, hmore⟩ := h c (' ' :: tail') htail
    rw [← (List.cons.inj hmore).2] at hbracket
    exact absurd rfl hbracket

/-- A text is cut in one way at the last colon that no bracket follows. -/
theorem eq_of_append_colon {a a' tail tail' : List Char} (h : ColonsBeforeBrackets tail)
    (h' : ColonsBeforeBrackets tail') (hbracket : tail.head? ≠ some '[')
    (hbracket' : tail'.head? ≠ some '[')
    (heq : a ++ ':' :: ' ' :: tail = a' ++ ':' :: ' ' :: tail') : a = a' ∧ tail = tail' := by
  have hsame : a = a' := by
    obtain ⟨c, rfl, hc⟩ | ⟨c, rfl, hc⟩ := List.append_eq_append_iff.mp heq
    · rw [eq_nil_of_colon h hbracket' hc, List.append_nil]
    · rw [eq_nil_of_colon h' hbracket hc, List.append_nil]
  subst hsame
  have htail := List.append_cancel_left heq
  exact ⟨rfl, (List.cons.inj (List.cons.inj htail).2).2⟩

end ColonsBeforeBrackets

/-! ## §7 Tallies -/

namespace Tally

/-- What stands behind the expression of a tally and its colon. -/
def tail (t : Tally) : List Char :=
  t.breakdown.toList ++ ' ' :: '=' :: ' ' :: t.total.text.toList

theorem toList_text (t : Tally) :
    t.text.toList = t.expression.toList ++ ':' :: ' ' :: t.tail := by
  simp [text, tail]

theorem colonsBeforeBrackets_tail (t : Tally) : ColonsBeforeBrackets t.tail := by
  have htotal : ':' ∉ t.total.text.toList := notMem_of_kind rfl t.total.isNotation_of_mem_text
  have hbehind : ':' ∉ ' ' :: '=' :: ' ' :: t.total.text.toList := by simp [htotal]
  exact (ColonsBeforeBrackets.breakdown t).append (.of_notMem hbehind)

theorem head?_tail_ne_bracket (t : Tally) : t.tail.head? ≠ some '[' := by
  rw [tail, toList_breakdown]
  cases t.outcomes with
  | nil => simp
  | cons o outcomes =>
    -- An outcome starts with a digit
    intro h
    rw [List.map_cons, intercalate_cons_eq_flatMap, List.append_assoc] at h
    obtain ⟨cs, hcs⟩ := List.head?_eq_some_iff.mp h
    have hdigit := o.startsDigit_text_append
      (((outcomes.map fun o => o.text.toList).flatMap ([' ', '|', ' '] ++ ·)) ++
        ' ' :: '=' :: ' ' :: t.total.text.toList)
    rw [hcs] at hdigit
    cases hdigit

theorem eq_of_text_eq {t t' : Tally} (h : t.text = t'.text) : t = t' := by
  have hchars := congrArg String.toList h
  rw [toList_text, toList_text] at hchars
  obtain ⟨hexpression, htail⟩ := ColonsBeforeBrackets.eq_of_append_colon
    t.colonsBeforeBrackets_tail t'.colonsBeforeBrackets_tail t.head?_tail_ne_bracket
    t'.head?_tail_ne_bracket hchars
  have houtcomes : t.outcomes = t'.outcomes :=
    outcomes_eq_of_breakdown_append rfl (by simp) rfl (by simp) htail
  obtain ⟨expression, outcomes⟩ := t
  obtain ⟨expression', outcomes'⟩ := t'
  rw [Tally.mk.injEq]
  exact ⟨String.toList_inj.mp hexpression, houtcomes⟩

end Tally

/-- **The text of a tally is unambiguous.** Two tallies have one text only if their expressions
and their outcomes are the same, whatever texts the expressions are; and the breakdown alone says
what the outcomes are. -/
theorem tally_text_inj :
    (∀ t t' : Tally, t.text = t'.text ↔ t.expression = t'.expression ∧ t.outcomes = t'.outcomes) ∧
      ∀ t t' : Tally, t.breakdown = t'.breakdown ↔ t.outcomes = t'.outcomes := by
  refine ⟨fun t t' => ⟨fun h => ?_, fun h => ?_⟩, fun t t' => ⟨fun h => ?_, fun h => ?_⟩⟩
  · rw [Tally.eq_of_text_eq h]
    exact ⟨rfl, rfl⟩
  · obtain ⟨expression, outcomes⟩ := t
    obtain ⟨rfl, rfl⟩ := h
    rfl
  · exact Tally.outcomes_eq_of_breakdown_eq h
  · rw [Tally.breakdown, Tally.breakdown, Tally.fragments, Tally.fragments, h]

end DiceNotation
