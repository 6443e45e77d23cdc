import DiceNotation.Proofs.Checking
import DiceNotation.Proofs.Cut

/-!
# Agreement of the Grammars

Of a sum the lenient grammar finds the terms that the strict grammar reads
(`findAll_eq_of_readSum?`): where one term ends the other grammar goes on with the next
one, and the `+` between them is passed over. So both answer the same for sums
(`Grammar.parse_of_readSum?`).
-/

namespace DiceNotation

namespace Spelling

theorem read?_plus (cs : List Char) : read? ('+' :: cs) = none := by
  have hfront : startsDigit ('+' :: cs) = false := rfl
  rw [read?_eq_none_iff, dropWhile_eq_self hfront]
  rfl

theorem findAll_dropPlus (cs : List Char) : findAll (Sign.dropPlus cs) = findAll cs := by
  unfold Sign.dropPlus
  split
  · next rest => exact (findAll_cons_of_read?_eq_none (read?_plus rest)).symm
  · rfl

theorem findAll_eq_of_readMore? {cs : List Char} {terms : List Spelling}
    (h : readMore? cs = some terms) : findAll cs = terms := by
  induction cs using readMore?.induct generalizing terms with
  | case1 =>
    simp only [readMore?, Option.some.injEq] at h
    simpa [findAll] using h
  | case2 c cs s rest hread ih =>
    rw [readMore?_of_read?_eq_some hread] at h
    obtain ⟨more, hmore, rfl⟩ := Option.map_eq_some_iff.mp h
    -- The separator that was dropped is passed over
    rw [← findAll_dropPlus, findAll_of_read?_eq_some hread, ih hmore]
  | case3 c cs hread =>
    rw [readMore?_cons_of_read?_eq_none hread] at h
    cases h

/-- What the strict grammar reads is what the lenient grammar finds. -/
theorem findAll_eq_of_readSum? {cs : List Char} {terms : List Spelling}
    (h : readSum? cs = some terms) : findAll cs = terms := by
  simp only [readSum?, Option.bind_eq_bind, Option.bind_eq_some_iff] at h
  obtain ⟨⟨first, rest⟩, hfirst, more, hmore, h⟩ := h
  obtain rfl := Option.some.inj h
  rw [findAll_of_read?_eq_some hfirst, findAll_eq_of_readMore? hmore]

theorem ne_nil_of_readSum? {cs : List Char} {terms : List Spelling}
    (h : readSum? cs = some terms) : terms ≠ [] := by
  simp only [readSum?, Option.bind_eq_bind, Option.bind_eq_some_iff] at h
  obtain ⟨⟨first, rest⟩, -, more, -, h⟩ := h
  obtain rfl := Option.some.inj h
  exact List.cons_ne_nil first more

end Spelling

namespace Grammar

/-- What both grammars answer for a sum: what checking its terms gives. -/
theorem parse_of_readSum? {text : String} {terms : List Spelling}
    (h : Spelling.readSum? (Text.normalize text).toList = some terms) (grammar : Grammar) :
    grammar.parse text = terms.mapM Spelling.toTerm := by
  cases grammar with
  | lenient =>
    rw [parse_lenient, Spelling.findAll_eq_of_readSum? h, if_neg (Spelling.ne_nil_of_readSum? h)]
  | strict => simp only [parse, spellings, h, bind, Except.bind]

theorem parse_strict_of_readSum?_eq_none {text : String}
    (h : Spelling.readSum? (Text.normalize text).toList = none) :
    strict.parse text = .error (.malformed (Text.normalize text)
      [(Candidate.ofSum (Text.normalize text).toList).toSyntaxError]) := by
  simp only [parse, spellings, h, bind, Except.bind]

theorem ne_nil_of_parse {grammar : Grammar} {text : String} {terms : List Term}
    (h : grammar.parse text = .ok terms) : terms ≠ [] := by
  intro hnil
  subst hnil
  cases grammar with
  | lenient =>
    rw [parse_lenient] at h
    split at h
    · cases h
    · next hfound =>
      exact hfound (List.forall₂_nil_right_iff.mp (Spelling.mapM_toTerm_eq_ok_iff.mp h))
  | strict =>
    cases hsum : Spelling.readSum? (Text.normalize text).toList with
    | none => simp [parse, spellings, hsum, bind, Except.bind] at h
    | some found =>
      -- There is one term for each spelling, and a sum has one
      rw [parse_of_readSum? hsum] at h
      exact Spelling.ne_nil_of_readSum? hsum
        (List.forall₂_nil_right_iff.mp (Spelling.mapM_toTerm_eq_ok_iff.mp h))

end Grammar

end DiceNotation
