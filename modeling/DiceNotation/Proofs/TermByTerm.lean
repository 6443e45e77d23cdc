import DiceNotation.Rolling

/-!
# Rolling Term by Term

What a roller makes of a list of terms, one term after the other. Either it rolls them all
(`Roller.Rolls`), or it rolls some of them and runs out at the next one (`Roller.RunsOut`).
There is no third way (`Roller.rolls_or_runsOut`), and each way fixes the answer, the
journal and the state that is left, for terms as for expressions. Terms behind other terms
are rolled from the state that those leave.
-/

namespace DiceNotation

variable {σ : Type}

namespace Roller

variable {r : Roller σ}

/-! ## §1 The two ways -/

/-- From one state to another the roller rolls some terms with these outcomes. -/
inductive Rolls (r : Roller σ) : σ → List Term → List Outcome → σ → Prop where
  /-- There is nothing to roll. -/
  | nil (s : σ) : Rolls r s [] [] s
  /-- The first term is rolled, and the others from the state that it leaves. -/
  | cons {s s₁ s₂ : σ} {t : Term} {ts : List Term} {o : Outcome} {os : List Outcome} :
      r.roll t s = (some o, s₁) → Rolls r s₁ ts os s₂ → Rolls r s (t :: ts) (o :: os) s₂

/-- From one state to another the roller rolls the first of some terms with these outcomes,
and runs out while it rolls the next one. -/
inductive RunsOut (r : Roller σ) : σ → List Term → List Outcome → σ → Prop where
  /-- The roller runs out at the first term. -/
  | here {s s₁ : σ} {t : Term} (ts : List Term) :
      r.roll t s = (none, s₁) → RunsOut r s (t :: ts) [] s₁
  /-- The first term is rolled, and the roller runs out at a later one. -/
  | later {s s₁ s₂ : σ} {t : Term} {ts : List Term} {o : Outcome} {os : List Outcome} :
      r.roll t s = (some o, s₁) → RunsOut r s₁ ts os s₂ → RunsOut r s (t :: ts) (o :: os) s₂

/-- A roller goes one of the two ways. -/
theorem rolls_or_runsOut (r : Roller σ) (s : σ) (terms : List Term) :
    ∃ outcomes s', r.Rolls s terms outcomes s' ∨ r.RunsOut s terms outcomes s' := by
  induction terms generalizing s with
  | nil => exact ⟨[], s, .inl (.nil s)⟩
  | cons t ts ih =>
    cases hroll : r.roll t s with
    | mk outcome s₁ =>
      cases outcome with
      | none => exact ⟨[], s₁, .inr (.here ts hroll)⟩
      | some o =>
        -- The way goes on from the state that this term leaves
        obtain ⟨os, s₂, hrolls | hout⟩ := ih s₁
        · exact ⟨o :: os, s₂, .inl (.cons hroll hrolls)⟩
        · exact ⟨o :: os, s₂, .inr (.later hroll hout)⟩

/-! ## §2 Terms that were rolled -/

theorem term_of_roll_eq_some {t : Term} {s s' : σ} {o : Outcome} (h : r.roll t s = (some o, s')) :
    o.term = t := by
  obtain ⟨faces, -, rfl⟩ := Option.map_eq_some_iff.mp (congrArg Prod.fst h)
  rfl

/-- The outcomes are those of the terms, in order. -/
theorem Rolls.map_term {s s' : σ} {terms : List Term} {outcomes : List Outcome}
    (h : r.Rolls s terms outcomes s') : outcomes.map Outcome.term = terms := by
  induction h with
  | nil => rfl
  | cons hroll _ ih => rw [List.map_cons, term_of_roll_eq_some hroll, ih]

/-! ## §3 Runs -/

variable {s s' : σ} {terms : List Term} {outcomes : List Outcome}

theorem Rolls.rollTerms_eq (h : r.Rolls s terms outcomes s') :
    r.rollTerms terms s = ⟨some outcomes, outcomes.map Event.rolled, s'⟩ := by
  induction h with
  | nil => rfl
  | cons hroll _ ih => simp [rollTerms, hroll, ih]

theorem RunsOut.rollTerms_eq (h : r.RunsOut s terms outcomes s') :
    r.rollTerms terms s = ⟨none, outcomes.map Event.rolled, s'⟩ := by
  induction h with
  | here ts hroll => simp [rollTerms, hroll]
  | later hroll _ ih => simp [rollTerms, hroll, ih]

theorem Rolls.evaluateAs_eq (h : r.Rolls s terms outcomes s') (expression : String) :
    r.evaluateAs expression terms s =
      ⟨some ⟨expression, outcomes⟩,
        outcomes.map Event.rolled ++ [.evaluated expression (Tally.mk expression outcomes).total],
        s'⟩ := by
  rw [evaluateAs, h.rollTerms_eq]

theorem RunsOut.evaluateAs_eq (h : r.RunsOut s terms outcomes s') (expression : String) :
    r.evaluateAs expression terms s = ⟨none, outcomes.map Event.rolled, s'⟩ := by
  rw [evaluateAs, h.rollTerms_eq]

/-- What happens to an expression whose terms are rolled. -/
theorem Rolls.rollText_eq (h : r.Rolls s terms outcomes s') {grammar : Grammar} {text : String}
    (hparse : grammar.parse text = .ok terms) :
    r.rollText grammar text s =
      ⟨some (.ok ⟨text, outcomes⟩),
        .parsed (Text.normalize text) terms.length :: (outcomes.map Event.rolled ++
          [.evaluated text (Tally.mk text outcomes).total]),
        s'⟩ := by
  rw [r.rollText_of_parse_eq_ok hparse, h.evaluateAs_eq, Grammar.event, hparse]
  rfl

/-- What happens to an expression whose terms are rolled up to one of them. -/
theorem RunsOut.rollText_eq (h : r.RunsOut s terms outcomes s') {grammar : Grammar} {text : String}
    (hparse : grammar.parse text = .ok terms) :
    r.rollText grammar text s =
      ⟨none, .parsed (Text.normalize text) terms.length :: outcomes.map Event.rolled, s'⟩ := by
  rw [r.rollText_of_parse_eq_ok hparse, h.evaluateAs_eq, Grammar.event, hparse]
  rfl

/-- An expression has a tally iff its terms are rolled; the tally has their outcomes. -/
theorem answer_rollText_eq_ok_iff {grammar : Grammar} {text : String} {tally : Tally} :
    (r.rollText grammar text s).answer = some (.ok tally) ↔
      tally.expression = text ∧
        ∃ terms s', grammar.parse text = .ok terms ∧ r.Rolls s terms tally.outcomes s' := by
  constructor
  · intro h
    cases hparse : grammar.parse text with
    | error error =>
      rw [r.rollText_of_parse_eq_error hparse] at h
      cases h
    | ok terms =>
      obtain ⟨outcomes, s', hrolls | hout⟩ := r.rolls_or_runsOut s terms
      · rw [hrolls.rollText_eq hparse] at h
        cases h
        exact ⟨rfl, terms, s', rfl, hrolls⟩
      · rw [hout.rollText_eq hparse] at h
        cases h
  · rintro ⟨rfl, terms, s', hparse, hrolls⟩
    rw [hrolls.rollText_eq hparse]

/-! ## §4 Terms behind other terms -/

variable {s'' : σ} {terms' : List Term} {outcomes' : List Outcome}

theorem Rolls.append (h : r.Rolls s terms outcomes s') (h' : r.Rolls s' terms' outcomes' s'') :
    r.Rolls s (terms ++ terms') (outcomes ++ outcomes') s'' := by
  induction h with
  | nil => exact h'
  | cons hroll _ ih => exact .cons hroll (ih h')

theorem Rolls.append_runsOut (h : r.Rolls s terms outcomes s')
    (h' : r.RunsOut s' terms' outcomes' s'') :
    r.RunsOut s (terms ++ terms') (outcomes ++ outcomes') s'' := by
  induction h with
  | nil => exact h'
  | cons hroll _ ih => exact .later hroll (ih h')

/-- Behind the term at which the roller runs out nothing is rolled. -/
theorem RunsOut.append (h : r.RunsOut s terms outcomes s') (terms' : List Term) :
    r.RunsOut s (terms ++ terms') outcomes s' := by
  induction h with
  | here ts hroll => exact .here (ts ++ terms') hroll
  | later hroll _ ih => exact .later hroll ih

end Roller

end DiceNotation
