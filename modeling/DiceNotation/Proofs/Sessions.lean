import DiceNotation.Proofs.Dealing
import DiceNotation.Session

/-!
# Sessions with a Script

Each call of a session takes the next faces of the script, one for each die. A call that
needs more than there are left takes them all, and a call that is refused or only asks
whether there is a face left takes none.

Every call is answered from the faces that are left, and from nothing else
(`Session.step_of_holds`); by induction so is every call of a session
(`Session.map_reply_run`). Main statement: `script_session`.
-/

namespace DiceNotation

/-! ## §1 Calls answered from a list -/

namespace Call

/-- The call uses the source in use, and neither changes it for another one nor copies it. -/
def isUse : Call → Bool
  | die _ | roll _ | evaluate _ | rollText .. | canRoll => true
  | setFace _ | save | restore => false

/-- The terms that a call rolls. -/
def terms : Call → List Term
  | roll t => [t]
  | evaluate ts => ts
  | rollText grammar expression =>
    match grammar.parse expression with
    | .ok ts => ts
    | .error _ => []
  | _ => []

/-- The number of dice that a call rolls; none if its expression is refused. -/
def dice : Call → Nat
  | die _ => 1
  | roll t => t.count
  | evaluate ts => diceCount ts
  | rollText grammar expression =>
    match grammar.parse expression with
    | .ok ts => diceCount ts
    | .error _ => 0
  | _ => 0

/-- The tally of terms that are dealt the faces of a list, unless these are too few. -/
def tallyOf (faces : List Nat) (expression : String) (terms : List Term) : Reply :=
  if diceCount terms ≤ faces.length then .tally ⟨expression, deal terms faces⟩ else .ranOut

/-- The reply to a call when the faces of a list are left. -/
def answer (faces : List Nat) : Call → Reply
  | die _ => (faces.head?.map Reply.face).getD .ranOut
  | roll t =>
    if t.count ≤ faces.length then .outcome ⟨t, faces.take t.count⟩ else .ranOut
  | evaluate ts => tallyOf faces (canonicalText ts) ts
  | rollText grammar expression =>
    match grammar.parse expression with
    | .ok ts => tallyOf faces expression ts
    | .error error => .refused error
  | canRoll => .canRoll (!faces.isEmpty)
  | setFace _ | save | restore => .impossible

/-- The replies to calls in order, each of which takes its faces from the front of a list. -/
def answers : List Nat → List Call → List Reply
  | _, [] => []
  | faces, call :: calls => call.answer faces :: answers (faces.drop call.dice) calls

end Call

namespace Reply

/-- The outcomes of a reply. -/
def outcomes : Reply → List Outcome
  | outcome o => [o]
  | tally t => t.outcomes
  | _ => []

/-- The faces that a reply shows, in the order of the dice. -/
def faces : Reply → List Nat
  | face f => [f]
  | reply => reply.outcomes.flatMap Outcome.faces

/-- The reply shows these faces, cut by the counts of these terms. -/
structure Deals (reply : Reply) (terms : List Term) (shown : List Nat) : Prop where
  faces_eq : reply.faces = shown
  terms_eq : reply.outcomes.map Outcome.term = terms
  faces_cut : ∀ o ∈ reply.outcomes, o.faces.length = o.term.count

end Reply

namespace Call

variable {faces : List Nat}

theorem answer_of_lt {call : Call} (h : faces.length < call.dice) :
    call.answer faces = .ranOut := by
  cases call with
  | die sides =>
    obtain rfl : faces = [] := List.length_eq_zero_iff.mp (Nat.lt_one_iff.mp h)
    rfl
  | roll t => exact if_neg (Nat.not_le.mpr h)
  | evaluate ts => exact if_neg (Nat.not_le.mpr h)
  | rollText grammar expression =>
    rw [dice] at h
    rw [answer]
    cases hparse : grammar.parse expression with
    | error error =>
      rw [hparse] at h
      exact absurd h (Nat.not_lt_zero _)
    | ok ts =>
      rw [hparse] at h
      exact if_neg (Nat.not_le.mpr h)
  | canRoll | setFace | save | restore => exact absurd h (Nat.not_lt_zero _)

theorem deals_tally {terms : List Term} (h : diceCount terms ≤ faces.length) (expression : String) :
    (Reply.tally ⟨expression, deal terms faces⟩).Deals terms (faces.take (diceCount terms)) where
  faces_eq := flatMap_faces_deal terms faces
  terms_eq := map_term_deal terms faces
  faces_cut := fun _ ho => length_faces_of_mem_deal h ho

theorem deals_answer_of_le {call : Call} (h : call.dice ≤ faces.length) :
    call.answer faces ≠ .ranOut ∧ (call.answer faces).Deals call.terms (faces.take call.dice) := by
  cases call with
  | die sides =>
    obtain ⟨face, faces, rfl⟩ := List.exists_cons_of_length_pos h
    exact ⟨by simp [answer], rfl, rfl, by simp [answer, Reply.outcomes]⟩
  | roll t =>
    have hanswer : (roll t).answer faces = .outcome ⟨t, faces.take t.count⟩ := if_pos h
    rw [hanswer]
    have hlength : (faces.take t.count).length = t.count := List.length_take_of_le h
    refine ⟨by simp, ?_, rfl, ?_⟩
    · simp [Reply.faces, Reply.outcomes, dice]
    · simp [Reply.outcomes, hlength]
  | evaluate ts =>
    have hanswer : (evaluate ts).answer faces = .tally ⟨canonicalText ts, deal ts faces⟩ := if_pos h
    rw [hanswer]
    exact ⟨by simp, deals_tally h _⟩
  | rollText grammar expression =>
    cases hparse : grammar.parse expression with
    | error error =>
      simp only [dice, terms, answer, hparse]
      exact ⟨by simp, rfl, rfl, by simp [Reply.outcomes]⟩
    | ok ts =>
      simp only [dice, hparse] at h
      simp only [dice, terms, answer, hparse, tallyOf, if_pos h]
      exact ⟨by simp, deals_tally h expression⟩
  | canRoll | setFace | save | restore =>
    exact ⟨by simp [answer], by simp [answer, Reply.faces, Reply.outcomes, dice], rfl,
      by simp [answer, Reply.outcomes]⟩

theorem dice_of_answer_eq_refused {call : Call} {error : NotationError}
    (h : call.answer faces = .refused error) : call.dice = 0 := by
  cases call with
  | rollText grammar expression =>
    rw [answer] at h
    rw [dice]
    cases hparse : grammar.parse expression with
    | error error => rfl
    | ok ts =>
      rw [hparse] at h
      simp only [tallyOf] at h
      split at h <;> cases h
  | die sides => cases faces <;> cases h
  | roll t =>
    simp only [answer] at h
    split at h <;> cases h
  | evaluate ts =>
    simp only [answer, tallyOf] at h
    split at h <;> cases h
  | canRoll | setFace | save | restore => rfl

end Call

/-! ## §2 One call -/

/-- What a call does when the faces of a list are left. -/
structure Session.Served (left : List Nat) (call : Call) (step : Session.Step) : Prop where
  /-- The source runs out iff there are fewer faces left than dice to roll. -/
  ranOut_iff : step.reply = .ranOut ↔ left.length < call.dice
  /-- Then the call takes all of them. -/
  ranOut_left : step.reply = .ranOut → step.after.source.Holds []
  /-- Else it shows the next faces, one for each die, and takes no others. -/
  deals : step.reply ≠ .ranOut → step.reply.Deals call.terms (left.take call.dice)
  deals_left : step.reply ≠ .ranOut → step.after.source.Holds (left.drop call.dice)
  /-- A call that is refused takes nothing. -/
  refused_left : ∀ error, step.reply = .refused error → step.after.source.Holds left
  /-- There is a face left iff the next die would be rolled. -/
  canRoll_iff : call = .canRoll → ∃ answer, step.reply = .canRoll answer ∧
    ∀ sides, answer = true ↔ (step.after.step (.die sides)).reply ≠ .ranOut

namespace Session

variable {session : Session} {faces : List Nat}

/-- Any call is answered from the faces that are left, and takes one of them for each die. -/
theorem step_of_holds (h : session.source.Holds faces) {call : Call} (hcall : call.isUse = true) :
    (session.step call).reply = call.answer faces ∧
      (session.step call).after.source.Holds (faces.drop call.dice) := by
  cases call with
  | die sides =>
    obtain ⟨hface, hstate⟩ := Roller.ofSource_simulates_dealing sides _ _ h
    refine ⟨?_, ?_⟩
    · exact congrArg (fun face : Option Nat => (face.map Reply.face).getD .ranOut) hface
    · show (Roller.ofSource.die sides session.source).2.Holds (faces.drop 1)
      rwa [List.drop_one]
  | roll t =>
    obtain ⟨houtcome, hstate⟩ := Roller.ofSource_simulates_dealing.roll t h
    rw [Roller.dealing_roll] at houtcome hstate
    refine ⟨?_, ?_⟩
    · show ((Roller.ofSource.roll t session.source).1.map Reply.outcome).getD .ranOut = _
      rw [houtcome, Call.answer]
      split <;> rfl
    · exact hstate
  | evaluate ts =>
    obtain ⟨hanswer, -, hstate⟩ := Roller.ofSource_simulates_dealing.evaluate ts h
    obtain ⟨hdealt, hleft⟩ := Roller.dealing_evaluateAs (canonicalText ts) ts faces
    refine ⟨?_, hleft ▸ hstate⟩
    show ((Roller.ofSource.evaluate ts session.source).answer.map Reply.tally).getD .ranOut = _
    rw [hanswer, Roller.evaluate, hdealt, Call.answer, Call.tallyOf]
    split <;> rfl
  | rollText grammar expression =>
    obtain ⟨hanswer, -, hstate⟩ :=
      Roller.ofSource_simulates_dealing.rollText grammar expression h
    cases hparse : grammar.parse expression with
    | error error =>
      -- Nothing is rolled
      rw [Roller.rollText_of_parse_eq_error Roller.dealing hparse] at hanswer hstate
      simp only [step, stepOf, hanswer, Call.answer, Call.dice, hparse]
      exact ⟨rfl, hstate⟩
    | ok ts =>
      obtain ⟨hdealt, hleft⟩ := Roller.dealing_evaluateAs expression ts faces
      rw [Roller.rollText_of_parse_eq_ok Roller.dealing hparse] at hanswer hstate
      simp only [step, stepOf, hanswer, hdealt, Call.answer, Call.tallyOf, Call.dice, hparse]
      refine ⟨?_, hleft ▸ hstate⟩
      split <;> rfl
  | canRoll =>
    obtain ⟨script, hsource, hscript⟩ := h.exists_eq_scripted
    obtain ⟨hanswer, hstate⟩ := hscript.canRoll
    rw [step, hsource]
    exact ⟨congrArg Reply.canRoll hanswer, hstate⟩
  | setFace | save | restore => cases hcall

theorem served_step (h : session.source.Holds faces) {call : Call} (hcall : call.isUse = true) :
    Served faces call (session.step call) := by
  obtain ⟨hreply, hafter⟩ := step_of_holds h hcall
  have hiff : (session.step call).reply = .ranOut ↔ faces.length < call.dice := by
    rw [hreply]
    refine ⟨fun hout => Nat.lt_of_not_le fun hle => ?_, fun hlt => Call.answer_of_lt hlt⟩
    exact (Call.deals_answer_of_le hle).1 hout
  refine
    { ranOut_iff := hiff
      ranOut_left := fun hout => ?_
      deals := fun hrolled => ?_
      deals_left := fun _ => hafter
      refused_left := fun error herror => ?_
      canRoll_iff := ?_ }
  · rwa [List.drop_eq_nil_of_le (Nat.le_of_lt (hiff.mp hout))] at hafter
  · rw [hreply]
    exact (Call.deals_answer_of_le (Nat.not_lt.mp (mt hiff.mpr hrolled))).2
  · rw [hreply] at herror
    rwa [Call.dice_of_answer_eq_refused herror] at hafter
  · rintro rfl
    refine ⟨!faces.isEmpty, hreply, fun sides => ?_⟩
    have hdie : (Call.die sides).isUse = true := rfl
    rw [(step_of_holds hafter hdie).1]
    cases faces <;> simp [Call.answer, Call.dice]

/-! ## §3 Whole sessions -/

/-- The session after some calls. -/
def afterAll (session : Session) (calls : List Call) : Session :=
  calls.foldl (fun session call => (session.step call).after) session

theorem run_append (session : Session) (calls more : List Call) :
    session.run (calls ++ more) = session.run calls ++ (session.afterAll calls).run more := by
  induction calls generalizing session with
  | nil => rfl
  | cons call calls ih => simp [run, ih, afterAll]

theorem length_run (session : Session) (calls : List Call) :
    (session.run calls).length = calls.length := by
  induction calls generalizing session with
  | nil => rfl
  | cons call calls ih => simp [run, ih]

/-- Calls take one face for each of their dice, as long as there are any. -/
theorem afterAll_holds {calls : List Call} (hcalls : ∀ call ∈ calls, call.isUse = true)
    (h : session.source.Holds faces) :
    (session.afterAll calls).source.Holds (faces.drop (calls.map Call.dice).sum) := by
  induction calls generalizing session faces with
  | nil => exact h
  | cons call calls ih =>
    obtain ⟨hcall, hcalls⟩ := List.forall_mem_cons.mp hcalls
    have hrest := ih hcalls (step_of_holds h hcall).2
    rwa [List.drop_drop] at hrest

/-- Which replies a session gives depends on nothing but the faces that are left. -/
theorem map_reply_run {calls : List Call} (hcalls : ∀ call ∈ calls, call.isUse = true)
    (h : session.source.Holds faces) :
    (session.run calls).map Step.reply = Call.answers faces calls := by
  induction calls generalizing session faces with
  | nil => rfl
  | cons call calls ih =>
    obtain ⟨hcall, hcalls⟩ := List.forall_mem_cons.mp hcalls
    obtain ⟨hreply, hafter⟩ := step_of_holds h hcall
    rw [run, List.map_cons, hreply, ih hcalls hafter, Call.answers]

theorem drop_run (session : Session) (calls more : List Call) :
    (session.run (calls ++ more)).drop calls.length = (session.afterAll calls).run more := by
  rw [run_append, ← session.length_run calls, List.drop_left]

theorem getElem?_run (session : Session) (before : List Call) (call : Call) (after : List Call) :
    (session.run (before ++ call :: after))[before.length]? =
      some ((session.afterAll before).step call) := by
  rw [run_append, ← session.length_run before, List.getElem?_append_right (Nat.le_refl _),
    Nat.sub_self, run]
  rfl

/-- A session with a script that shows its faces once. -/
def ofScript (faces : List Nat) : Session where
  source := .scripted (.once faces)

theorem ofScript_holds (faces : List Nat) : (ofScript faces).source.Holds faces :=
  Script.Holds.untouched faces

end Session

theorem sum_dice_replicate_canRoll (n : Nat) :
    ((List.replicate n Call.canRoll).map Call.dice).sum = 0 := by
  simp [Call.dice]

/-- **A script loses, repeats and reorders nothing over a session.** Every call is served from the
faces that the calls before it have left: it takes the next ones, one for each of its dice, or all
that are left if they are too few. Asking any number of times whether there is a face left changes
no later reply. -/
theorem script_session {faces : List Nat} {calls : List Call}
    (hcalls : ∀ call ∈ calls, call.isUse = true) :
    (∀ before call after, calls = before ++ call :: after →
      ∃ step, ((Session.ofScript faces).run calls)[before.length]? = some step ∧
        Session.Served (faces.drop (before.map Call.dice).sum) call step) ∧
    ∀ before after, calls = before ++ after → ∀ n,
      (((Session.ofScript faces).run (before ++ List.replicate n .canRoll ++ after)).drop
          (before.length + n)).map Session.Step.reply =
        (((Session.ofScript faces).run calls).drop before.length).map Session.Step.reply := by
  have hstart := Session.ofScript_holds faces
  refine ⟨?_, ?_⟩
  · rintro before call after rfl
    obtain ⟨hbefore, hrest⟩ := List.forall_mem_append.mp hcalls
    refine ⟨_, Session.getElem?_run _ before call after, ?_⟩
    apply Session.served_step
    · exact Session.afterAll_holds hbefore hstart
    · exact hrest call List.mem_cons_self
  · rintro before after rfl n
    obtain ⟨hbefore, hafter⟩ := List.forall_mem_append.mp hcalls
    have hasked : ∀ call ∈ before ++ List.replicate n .canRoll, call.isUse = true := by
      refine List.forall_mem_append.mpr ⟨hbefore, fun call hcall => ?_⟩
      rw [List.eq_of_mem_replicate hcall]
      rfl
    have hlength : before.length + n = (before ++ List.replicate n Call.canRoll).length := by simp
    have hleft := Session.afterAll_holds hbefore hstart
    have hleft' := Session.afterAll_holds hasked hstart
    -- No die is rolled by asking, so the same faces are left either way
    rw [List.map_append, List.sum_append, sum_dice_replicate_canRoll, Nat.add_zero] at hleft'
    rw [hlength, Session.drop_run, Session.drop_run, Session.map_reply_run hafter hleft,
      Session.map_reply_run hafter hleft']

/-- Three dice with two faces left, one of them looked at already. -/
theorem script_session_runs_out :
    ∃ step, ((Session.ofScript [4, 1, 6]).run
        [.die 6, .canRoll,
          .evaluate [⟨1, 6, 0, by decide, by decide⟩, ⟨2, 4, 3, by decide, by decide⟩],
          .canRoll])[2]? = some step ∧
      Session.Served [1, 6]
        (.evaluate [⟨1, 6, 0, by decide, by decide⟩, ⟨2, 4, 3, by decide, by decide⟩]) step := by
  have hcalls : ∀ call ∈ [Call.die 6, .canRoll,
      .evaluate [⟨1, 6, 0, by decide, by decide⟩, ⟨2, 4, 3, by decide, by decide⟩], .canRoll],
      call.isUse = true := by decide
  exact (script_session hcalls).1 [.die 6, .canRoll] _ [.canRoll] rfl

end DiceNotation
