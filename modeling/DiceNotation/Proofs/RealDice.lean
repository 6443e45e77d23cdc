import DiceNotation.Proofs.Drawing
import DiceNotation.Proofs.OneSubtotal
import DiceNotation.Proofs.Sessions
import DiceNotation.Proofs.TermByTerm

/-!
# Real Dice

A roller is real if its dice show their faces only (`Roller.Real`). All that it rolls is in
range, die by die, term by term and for a whole expression (`Tally.IsRealRoll`). A generator is
such a roller, since the index of a face is below the number of sides; and it is one for as long
as a session lasts, with copies put aside and taken up again (`Session.IsSeeded`). Main
statement: `generated_tally_is_real_roll`.
-/

namespace DiceNotation

variable {σ : Type}

/-! ## §1 Faces -/

/-- Every die shows one of its faces. -/
def Roller.Real (r : Roller σ) : Prop :=
  ∀ sides s face, 0 < sides → (r.die sides s).1 = some face → 1 ≤ face ∧ face ≤ sides

/-- The face of a generator is the one behind the index that was drawn. -/
theorem Roller.seeded_real : Roller.seeded.Real := by
  intro sides g face hsides hface
  obtain ⟨index, g', hdrawn, hdraws⟩ := Generator.draws_face hsides g
  have hindex := hdraws.index_lt hsides
  have hshown : (g.face sides).1 = face := Option.some.inj hface
  rw [hdrawn] at hshown
  omega

/-! ## §2 Terms -/

namespace Roller.Real

variable {r : Roller σ}

theorem of_dice (h : r.Real) {sides : Nat} (hsides : 0 < sides) {n : Nat} {s : σ}
    {faces : List Nat} (hfaces : (r.dice sides n s).1 = some faces) :
    faces.length = n ∧ ∀ face ∈ faces, 1 ≤ face ∧ face ≤ sides := by
  induction n generalizing s faces with
  | zero =>
    obtain rfl := Option.some.inj hfaces
    exact ⟨rfl, List.forall_mem_nil _⟩
  | succ n ih =>
    rw [dice] at hfaces
    split at hfaces
    · cases hfaces
    · next face s' hface =>
      obtain ⟨more, hmore, rfl⟩ := Option.map_eq_some_iff.mp hfaces
      obtain ⟨hlength, hbounds⟩ := ih hmore
      refine ⟨congrArg (· + 1) hlength, List.forall_mem_cons.mpr ⟨?_, hbounds⟩⟩
      exact h sides s face hsides (congrArg Prod.fst hface)

theorem isRollOf (h : r.Real) {t : Term} {s s' : σ} {o : Outcome}
    (hroll : r.roll t s = (some o, s')) : o.IsRollOf t := by
  obtain ⟨faces, hfaces, rfl⟩ := Option.map_eq_some_iff.mp (congrArg Prod.fst hroll)
  obtain ⟨hlength, hbounds⟩ := h.of_dice t.sides_bounds.1 hfaces
  exact ⟨rfl, hlength, hbounds⟩

theorem forall₂_isRollOf (h : r.Real) {s s' : σ} {terms : List Term} {outcomes : List Outcome}
    (hrolls : r.Rolls s terms outcomes s') : List.Forall₂ Outcome.IsRollOf outcomes terms := by
  induction hrolls with
  | nil => exact .nil
  | cons hroll _ ih => exact .cons (h.isRollOf hroll) ih

end Roller.Real

theorem Outcome.IsRollOf.inRange {o : Outcome} {t : Term} (h : o.IsRollOf t) : o.InRange := by
  obtain rfl := h.term_eq
  have hsubtotal := (exists_subtotal_eq_iff o.term o.subtotal).mp ⟨o, h, rfl⟩
  exact ⟨h.face_bounds, Int64.le_iff_toInt_le.mpr hsubtotal.1,
    Int64.le_iff_toInt_le.mpr hsubtotal.2⟩

/-! ## §3 Expressions -/

/-- A tally that real dice can show for some terms. -/
structure Tally.IsRealRoll (tally : Tally) (terms : List Term) : Prop where
  /-- There is one outcome for each term in order, with one of its faces for each of its dice. -/
  outcomes : List.Forall₂ Outcome.IsRollOf tally.outcomes terms
  /-- Every face and every subtotal is in range. -/
  inRange : ∀ o ∈ tally.outcomes, o.InRange
  /-- The total is in range, too. -/
  total_bounds : Score.sum (terms.map Term.minTotal) ≤ tally.total ∧
    tally.total ≤ Score.sum (terms.map Term.maxTotal)
  /-- Nothing but the term decides what one-sided dice show. -/
  oneSided : ∀ (i : Nat) (t : Term), terms[i]? = some t → t.sides = 1 →
    tally.outcomes[i]? = some ⟨t, List.replicate t.count 1⟩

theorem Tally.isRealRoll_of_forall₂ {tally : Tally} {terms : List Term}
    (h : List.Forall₂ Outcome.IsRollOf tally.outcomes terms) : tally.IsRealRoll terms where
  outcomes := h
  inRange := ((List.forall₂_and_left tally.outcomes terms).mp
    (h.imp fun _ _ ho => ⟨ho.inRange, ho⟩)).1
  total_bounds := by
    have htotal := (exists_total_eq_iff terms tally.total).mp ⟨tally, h, rfl⟩
    exact ⟨Int64.le_iff_toInt_le.mpr htotal.1, Int64.le_iff_toInt_le.mpr htotal.2⟩
  oneSided := by
    intro i t ht hsides
    obtain ⟨hi, rfl⟩ := List.getElem?_eq_some_iff.mp ht
    have hi' : i < tally.outcomes.length := by rwa [h.length_eq]
    have ho : tally.outcomes[i].IsRollOf terms[i] := h.get hi' hi
    rw [List.getElem?_eq_getElem hi', ← ho.eq_of_sides_eq_one hsides]

/-- What a real roller tallies, real dice can show. -/
theorem Roller.Real.isRealRoll {r : Roller σ} (h : r.Real) {grammar : Grammar} {text : String}
    {s : σ} {tally : Tally} (htally : (r.rollText grammar text s).answer = some (.ok tally)) :
    ∃ terms, grammar.parse text = .ok terms ∧ tally.IsRealRoll terms := by
  obtain ⟨-, terms, s', hparse, hrolls⟩ := answer_rollText_eq_ok_iff.mp htally
  exact ⟨terms, hparse, Tally.isRealRoll_of_forall₂ (h.forall₂_isRollOf hrolls)⟩

/-! ## §4 Sessions -/

/-- A generator's source does what the generator does. -/
theorem Roller.ofSource_simulates_seeded :
    Roller.ofSource.Simulates Roller.seeded fun source g => source = .seeded g := by
  rintro sides _ g rfl
  exact ⟨rfl, rfl⟩

namespace Session

/-- All faces are those of generators, now and after copies are taken up. -/
structure IsSeeded (session : Session) : Prop where
  source : ∃ g, session.source = .seeded g
  copies : ∀ copy ∈ session.copies, ∃ g, copy = .seeded g

/-- No call brings in another source. -/
theorem IsSeeded.step {session : Session} (h : session.IsSeeded) (call : Call) :
    (session.step call).after.IsSeeded := by
  obtain ⟨⟨g, hsource⟩, hcopies⟩ := h
  cases call with
  | die sides =>
    exact ⟨⟨_, (Roller.ofSource_simulates_seeded sides _ g hsource).2⟩, hcopies⟩
  | roll t => exact ⟨⟨_, (Roller.ofSource_simulates_seeded.roll t hsource).2⟩, hcopies⟩
  | evaluate terms =>
    exact ⟨⟨_, (Roller.ofSource_simulates_seeded.evaluate terms hsource).state⟩, hcopies⟩
  | rollText grammar text =>
    exact ⟨⟨_, (Roller.ofSource_simulates_seeded.rollText grammar text hsource).state⟩, hcopies⟩
  | canRoll =>
    rw [Session.step, hsource]
    exact ⟨⟨g, hsource⟩, hcopies⟩
  | setFace face =>
    rw [Session.step, hsource]
    exact ⟨⟨g, hsource⟩, hcopies⟩
  | save => exact ⟨⟨g, hsource⟩, List.forall_mem_cons.mpr ⟨⟨g, hsource⟩, hcopies⟩⟩
  | restore =>
    rw [Session.step]
    split
    · next source copies hlast =>
      -- The copy that is taken up is one of them
      rw [hlast] at hcopies
      exact ⟨(List.forall_mem_cons.mp hcopies).1, (List.forall_mem_cons.mp hcopies).2⟩
    · exact ⟨⟨g, hsource⟩, hcopies⟩

theorem IsSeeded.afterAll {session : Session} (h : session.IsSeeded) (calls : List Call) :
    (session.afterAll calls).IsSeeded := by
  induction calls generalizing session with
  | nil => exact h
  | cons call calls ih => exact ih (h.step call)

/-- A tally is the answer of the generator in its present state. -/
theorem IsSeeded.exists_answer {session : Session} (h : session.IsSeeded) {grammar : Grammar}
    {text : String} {tally : Tally}
    (hreply : (session.step (.rollText grammar text)).reply = .tally tally) :
    ∃ g, (Roller.seeded.rollText grammar text g).answer = some (.ok tally) := by
  obtain ⟨g, hsource⟩ := h.source
  refine ⟨g, ?_⟩
  rw [← (Roller.ofSource_simulates_seeded.rollText grammar text hsource).answer]
  rw [Session.step, stepOf] at hreply
  cases hanswer : (Roller.ofSource.rollText grammar text session.source).answer with
  | none =>
    rw [hanswer] at hreply
    cases hreply
  | some answer =>
    rw [hanswer] at hreply
    cases answer with
    | ok shown =>
      obtain rfl : shown = tally := Reply.tally.inj hreply
      rfl
    | error error => cases hreply

/-- A session with the generator of a roller. -/
def ofGenerator (g : Generator) : Session where
  source := .seeded g

theorem ofGenerator_isSeeded (g : Generator) : (ofGenerator g).IsSeeded :=
  ⟨⟨g, rfl⟩, List.forall_mem_nil _⟩

end Session

/-- **Every generated tally is a roll of real dice.** Whatever state a generator is in, and whatever
it was used for in a session before, a tally has an outcome for each term that was read, in order,
with a face of its own for each die; faces, subtotals and the total are in range; and one-sided dice
show the same from every state. A face is the one behind the index that is drawn. -/
theorem generated_tally_is_real_roll :
    (∀ (grammar : Grammar) (text : String) (g : Generator) (tally : Tally),
      (Roller.seeded.rollText grammar text g).answer = some (.ok tally) →
        ∃ terms, grammar.parse text = .ok terms ∧ tally.IsRealRoll terms) ∧
    (∀ (g : Generator) (calls : List Call) (grammar : Grammar) (text : String) (tally : Tally),
      (((Session.ofGenerator g).afterAll calls).step (.rollText grammar text)).reply =
          .tally tally →
        ∃ terms, grammar.parse text = .ok terms ∧ tally.IsRealRoll terms) ∧
    ∀ (sides : Nat) (g : Generator), 0 < sides →
      ∃ index g', Roller.seeded.die sides g = (some (1 + index), g') ∧
        Generator.Draws sides g index g' := by
  refine ⟨fun grammar text g tally htally => Roller.seeded_real.isRealRoll htally, ?_, ?_⟩
  · intro g calls grammar text tally hreply
    obtain ⟨g', htally⟩ :=
      ((Session.ofGenerator_isSeeded g).afterAll calls).exists_answer hreply
    exact Roller.seeded_real.isRealRoll htally
  · intro sides g hsides
    obtain ⟨index, g', hface, hdraws⟩ := Generator.draws_face hsides g
    refine ⟨index, g', ?_, hdraws⟩
    show (some (g.face sides).1, (g.face sides).2) = _
    rw [hface]

/-- One-sided dice among others, after calls that drew some words and took a copy up again. -/
theorem generated_tally_of_reused_generator :
    let calls : List Call := [.die 20, .save, .rollText .strict "3d6", .restore, .die 0]
    let tally : Tally := ⟨"2D1-4 + 3d1000",
      [⟨⟨2, 1, -4, by decide, by decide⟩, [1, 1]⟩,
        ⟨⟨3, 1000, 0, by decide, by decide⟩, [659, 976, 223]⟩]⟩
    (((Session.ofGenerator ⟨7⟩).afterAll calls).step (.rollText .strict "2D1-4 + 3d1000")).reply =
        .tally tally ∧
      ∃ terms, Grammar.strict.parse "2D1-4 + 3d1000" = .ok terms ∧ tally.IsRealRoll terms := by
  intro calls tally
  have hreply : (((Session.ofGenerator ⟨7⟩).afterAll calls).step
      (.rollText .strict "2D1-4 + 3d1000")).reply = .tally tally := by decide +kernel
  exact ⟨hreply, generated_tally_is_real_roll.2.1 _ _ _ _ _ hreply⟩

end DiceNotation
