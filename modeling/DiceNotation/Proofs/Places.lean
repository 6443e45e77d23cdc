import DiceNotation.Proofs.Reading
import DiceNotation.Proofs.Checking
import Mathlib.Data.List.DropRight

/-!
# Places of Dice

The lenient grammar scans a text from left to right, but what it finds can be said
place by place: dice stand wherever a `d` is directly followed by a digit, and their
count, sides and modifier are decided by the characters around that place alone
(`describeAt`). Main statement: `map_description_findAll`.

The scanner enters every part of the text at a point where the digits ahead, if dice
follow them, are what the local description calls their count (`Entry`). Both steps of
the scanner keep this.
-/

namespace DiceNotation

open Text (Numeral)

/-! ## §1 The local description -/

/-- What is written around the letter of some dice. -/
structure Description where
  /-- The digits of the count, if it is written. -/
  count : Option (List Char)
  /-- The digits of the number of sides. -/
  sides : List Char
  /-- The sign and the digits of the modifier, if there is one. -/
  modifier : Option (Sign × List Char)
deriving DecidableEq

/-- What is written in a spelling. -/
def Spelling.description (s : Spelling) : Description where
  count := s.count.map Numeral.digits
  sides := s.sides.digits
  modifier := s.modifier.map fun m => (m.sign, m.size.digits)

/-- Dice stand at a place: a `d` directly followed by a digit. -/
def diceAt (cs : List Char) (i : Nat) : Bool :=
  cs[i]? == some 'd' && cs[i + 1]?.any Char.isDigit

/-- The places of all dice of a text, in order. -/
def dicePlaces (cs : List Char) : List Nat :=
  (List.range cs.length).filter (diceAt cs)

/-- The longest run of digits that starts at a place. -/
def runFrom (cs : List Char) (i : Nat) : List Char :=
  (cs.drop i).takeWhile Char.isDigit

/-- The count at the end of a text: its longest run of digits, unless that is empty or
stands directly behind a `d`. -/
def countAtEnd (cs : List Char) : Option (List Char) :=
  let run := cs.rtakeWhile Char.isDigit
  if run = [] ∨ (cs.rdropWhile Char.isDigit).getLast? = some 'd' then none else some run

/-- The sign that a character is. -/
def Sign.ofChar? : Char → Option Sign
  | '+' => some plus
  | '-' => some minus
  | _ => none

/-- The modifier at a place: a sign and the longest run of digits behind it, unless that is
empty or dice stand directly behind it. -/
def modifierAt (cs : List Char) (i : Nat) : Option (Sign × List Char) :=
  let size := runFrom cs (i + 1)
  if size = [] ∨ diceAt cs (i + 1 + size.length) = true then none
  else (cs[i]?.bind Sign.ofChar?).map fun sign => (sign, size)

/-- What is written around the dice at a place. -/
def describeAt (cs : List Char) (i : Nat) : Description where
  count := countAtEnd (cs.take i)
  sides := runFrom cs (i + 1)
  modifier := modifierAt cs (i + 1 + (runFrom cs (i + 1)).length)

/-! ## §2 Descriptions of a text cut in two -/

/-- Dice stand at a place iff the text starts with dice from there on. -/
theorem diceAt_eq (cs : List Char) (i : Nat) : diceAt cs i = Spelling.startsDice (cs.drop i) := by
  have h₀ : cs[i]? = (cs.drop i)[0]? := by simp
  have h₁ : cs[i + 1]? = (cs.drop i)[1]? := by simp
  rw [diceAt, h₀, h₁]
  -- Both sides look at two characters at most
  rcases cs.drop i with _ | ⟨c, _ | ⟨c', rest⟩⟩
  · rfl
  · by_cases hc : c = 'd' <;> simp [hc, Spelling.startsDice]
  · by_cases hc : c = 'd'
    · simp [hc, Spelling.startsDice]
    · simp [hc, Spelling.startsDice_cons_of_ne hc]

theorem countAtEnd_digits {run : List Char} (hrun : ∀ c ∈ run, c.isDigit = true) :
    countAtEnd run = if run = [] then none else some run := by
  have htake : run.rtakeWhile Char.isDigit = run := List.rtakeWhile_eq_self_iff.mpr hrun
  have hdrop : run.rdropWhile Char.isDigit = [] := List.rdropWhile_eq_nil_iff.mpr hrun
  simp [countAtEnd, htake, hdrop]

/-- Digits behind another character are the count at their end, unless it is a `d`. -/
theorem countAtEnd_append {c : Char} (hc : c.isDigit = false) (before : List Char)
    {run : List Char} (hrun : ∀ c ∈ run, c.isDigit = true) :
    countAtEnd (before ++ c :: run) = if run = [] ∨ c = 'd' then none else some run := by
  -- From the end the run comes first, and the other character stops it
  have hreverse : ∀ c ∈ run.reverse, c.isDigit = true := fun c h => hrun c (List.mem_reverse.mp h)
  have hend : startsDigit (c :: before.reverse) = false := hc
  have htake : (before ++ c :: run).rtakeWhile Char.isDigit = run := by
    simp [List.rtakeWhile, takeWhile_digits hreverse hend]
  have hdrop : (before ++ c :: run).rdropWhile Char.isDigit = before ++ [c] := by
    simp [List.rdropWhile, dropWhile_digits hreverse hend]
  simp [countAtEnd, htake, hdrop]

theorem Sign.read?_cons (c : Char) (cs : List Char) :
    Sign.read? (c :: cs) = (Sign.ofChar? c).map fun sign => (sign, cs) := by
  by_cases hplus : c = '+'
  · simp [hplus, Sign.read?, Sign.ofChar?]
  · by_cases hminus : c = '-'
    · simp [hminus, Sign.read?, Sign.ofChar?]
    · simp [Sign.read?, Sign.ofChar?, hplus, hminus]

/-- The modifier at a place is the one that is read there. -/
theorem modifierAt_append (before after : List Char) :
    modifierAt (before ++ after) before.length =
      (Spelling.readModifier? after).map fun r => (r.1.sign, r.1.size.digits) := by
  rcases after with _ | ⟨c, rest⟩
  · simp [modifierAt, runFrom, Spelling.readModifier?, Sign.read?]
  -- Every place that is looked at lies behind the cut
  have hchar : (before ++ c :: rest)[before.length]? = some c := by simp
  have hdrop : ∀ k, (before ++ c :: rest).drop (before.length + 1 + k) = rest.drop k := by
    intro k
    rw [Nat.add_assoc, List.drop_length_add_append, Nat.add_comm, List.drop_succ_cons]
  have hrun : runFrom (before ++ c :: rest) (before.length + 1) = rest.takeWhile Char.isDigit :=
    congrArg (List.takeWhile Char.isDigit) (hdrop 0)
  rw [modifierAt, hrun, hchar, diceAt_eq, hdrop]
  cases hsize : Numeral.read? rest with
  | none =>
    -- A sign without digits is no modifier on either side
    have hempty := takeWhile_eq_nil (Numeral.read?_eq_none_iff.mp hsize)
    cases hsign : Sign.ofChar? c <;>
      simp [hempty, Spelling.readModifier?, Sign.read?_cons, hsign, hsize]
  | some read =>
    obtain ⟨size, tail⟩ := read
    obtain ⟨rfl, htail⟩ := Numeral.read?_eq_some_iff.mp hsize
    have htake := takeWhile_digits size.isDigit_of_mem htail
    cases hsign : Sign.ofChar? c with
    | none => simp [Spelling.readModifier?, Sign.read?_cons, hsign]
    | some sign =>
      -- What is left is the same look at what follows the digits
      cases hdice : Spelling.startsDice tail <;>
        simp [Spelling.readModifier?, Sign.read?_cons, hsign, hsize, htake, hdice, size.nonempty]

theorem runFrom_chars (before : List Char) {s : Spelling} {rest : List Char}
    (hend : s.EndsBefore rest) :
    runFrom (before ++ (s.chars ++ rest)) ((before ++ s.countChars).length + 1) =
      s.sides.digits := by
  have htext : before ++ (s.chars ++ rest) =
      (before ++ s.countChars) ++ 'd' :: (s.sides.digits ++ (s.modifierChars ++ rest)) := by
    rw [s.chars_append_eq, List.append_assoc]
  have hdrop : (before ++ (s.chars ++ rest)).drop ((before ++ s.countChars).length + 1) =
      s.sides.digits ++ (s.modifierChars ++ rest) := by
    rw [htext, List.drop_length_add_append, List.drop_one, List.tail_cons]
  rw [runFrom, hdrop]
  exact takeWhile_digits s.sides.isDigit_of_mem hend.sides_end

theorem modifierAt_chars (before : List Char) {s : Spelling} {rest : List Char}
    (hend : s.EndsBefore rest) (hnone : s.modifier = none → Spelling.readModifier? rest = none) :
    modifierAt (before ++ (s.chars ++ rest))
        ((before ++ s.countChars).length + 1 + s.sides.digits.length) =
      s.modifier.map fun m => (m.sign, m.size.digits) := by
  -- The place of the sign is the end of everything up to the sides
  have hcut : before ++ (s.chars ++ rest) =
      (before ++ s.countChars ++ 'd' :: s.sides.digits) ++ (s.modifierChars ++ rest) := by
    simp [Spelling.chars_eq]
  have hlength : (before ++ s.countChars).length + 1 + s.sides.digits.length =
      (before ++ s.countChars ++ 'd' :: s.sides.digits).length := by
    simp only [List.length_append, List.length_cons]
    omega
  rw [hcut, hlength, modifierAt_append]
  cases hm : s.modifier with
  | none => simp [Spelling.modifierChars_of_eq_none hm, hnone hm]
  | some m =>
    have hread : Spelling.readModifier? (m.chars ++ rest) = some (m, rest) :=
      Spelling.readModifier?_eq_some_iff.mpr
        ⟨rfl, hend.modifier_end m hm, hend.modifier_kept m hm⟩
    simp [Spelling.modifierChars_of_eq_some hm, hread]

/-- Around the letter of a spelling that ends before the rest stands what is written in it. -/
theorem describeAt_chars (before : List Char) {s : Spelling} {rest : List Char}
    (hend : s.EndsBefore rest) (hnone : s.modifier = none → Spelling.readModifier? rest = none)
    (hcount : countAtEnd (before ++ s.countChars) = s.count.map Numeral.digits) :
    describeAt (before ++ (s.chars ++ rest)) (before ++ s.countChars).length = s.description := by
  have hbefore : (before ++ (s.chars ++ rest)).take (before ++ s.countChars).length =
      before ++ s.countChars := by
    rw [s.chars_append_eq, ← List.append_assoc, List.take_left]
  rw [describeAt, runFrom_chars before hend, modifierAt_chars before hend hnone, hbefore, hcount]
  rfl

/-! ## §3 Places behind a point -/

/-- The places of dice of a text behind one of its points. -/
def placesFrom (before after : List Char) : List Nat :=
  (List.range' before.length after.length).filter (diceAt (before ++ after))

theorem placesFrom_nil_left (cs : List Char) : placesFrom [] cs = dicePlaces cs := by
  simp [placesFrom, dicePlaces, List.range_eq_range']

/-- Going on by one character passes one place. -/
theorem placesFrom_cons (before : List Char) (c : Char) (cs : List Char) :
    placesFrom before (c :: cs) =
      (if Spelling.startsDice (c :: cs) = true then [before.length] else []) ++
        placesFrom (before ++ [c]) cs := by
  have hdice : diceAt (before ++ c :: cs) before.length = Spelling.startsDice (c :: cs) := by
    rw [diceAt_eq, List.drop_left]
  simp only [placesFrom, List.length_cons, List.range'_succ, List.filter_cons, hdice,
    List.length_append, List.length_nil, List.append_assoc, List.cons_append, List.nil_append]
  split <;> rfl

theorem placesFrom_append_of_notMem (before : List Char) {seg : List Char} (h : 'd' ∉ seg)
    (rest : List Char) : placesFrom before (seg ++ rest) = placesFrom (before ++ seg) rest := by
  induction seg generalizing before with
  | nil => simp
  | cons c seg ih =>
    -- No dice stand at the first character, the rest goes by induction
    have hc : c ≠ 'd' := fun hc => h (by simp [hc])
    have hseg : 'd' ∉ seg := fun hd => h (by simp [hd])
    rw [List.cons_append, placesFrom_cons, Spelling.startsDice_cons_of_ne hc, ih _ hseg]
    simp

theorem Spelling.notMem_modifierChars (s : Spelling) : 'd' ∉ s.modifierChars := by
  intro h
  cases hm : s.modifier with
  | none => simp [modifierChars_of_eq_none hm] at h
  | some m =>
    rw [modifierChars_of_eq_some hm] at h
    rcases List.mem_cons.mp h with hsign | hsize
    · have hd : ('d' : Char) ≠ m.sign.char := by cases m.sign <;> decide
      exact hd hsign
    · exact notMem_of_kind rfl m.size.isDigit_of_mem hsize

/-- The only dice within a spelling are its own. -/
theorem placesFrom_chars (before : List Char) (s : Spelling) (rest : List Char) :
    placesFrom before (s.chars ++ rest) =
      (before ++ s.countChars).length :: placesFrom (before ++ s.chars) rest := by
  have htail : 'd' ∉ s.sides.digits ++ s.modifierChars := by
    intro h
    rcases List.mem_append.mp h with hsides | hmodifier
    · exact notMem_of_kind rfl s.sides.isDigit_of_mem hsides
    · exact s.notMem_modifierChars hmodifier
  -- The letter of the spelling is the one place on the way
  have hdice : Spelling.startsDice ('d' :: (s.sides.digits ++ s.modifierChars ++ rest)) = true := by
    rw [List.append_assoc]
    exact Spelling.startsDice_append s.sides _
  calc placesFrom before (s.chars ++ rest)
    _ = placesFrom before (s.countChars ++ 'd' :: (s.sides.digits ++ s.modifierChars ++ rest)) := by
      rw [s.chars_append_eq, List.append_assoc]
    _ = placesFrom (before ++ s.countChars) ('d' :: (s.sides.digits ++ s.modifierChars ++ rest)) :=
      placesFrom_append_of_notMem before (notMem_of_kind rfl s.isDigit_of_mem_countChars) _
    _ = (before ++ s.countChars).length ::
          placesFrom (before ++ s.countChars ++ ['d'])
            (s.sides.digits ++ s.modifierChars ++ rest) := by
      rw [placesFrom_cons, if_pos hdice, List.singleton_append]
    _ = (before ++ s.countChars).length :: placesFrom (before ++ s.chars) rest := by
      rw [placesFrom_append_of_notMem _ htail]
      simp [Spelling.chars_eq]

/-! ## §4 Where the scanner enters -/

/-- The scanner may go on between two parts of a text: if dice follow the digits ahead, these
digits are the count that is written there, and there is no other one. -/
def Entry (before after : List Char) : Prop :=
  Spelling.startsDice (after.dropWhile Char.isDigit) = true →
    countAtEnd (before ++ after.takeWhile Char.isDigit) =
      if after.takeWhile Char.isDigit = [] then none else some (after.takeWhile Char.isDigit)

theorem isDigit_of_mem_takeWhile (cs : List Char) :
    ∀ c ∈ cs.takeWhile Char.isDigit, c.isDigit = true :=
  List.all_eq_true.mp List.all_takeWhile

theorem entry_nil (cs : List Char) : Entry [] cs :=
  fun _ => countAtEnd_digits (isDigit_of_mem_takeWhile cs)

/-- The scanner may go on behind a character at which nothing could be read. -/
theorem entry_of_read?_eq_none (before : List Char) {c : Char} {cs : List Char}
    (h : Spelling.read? (c :: cs) = none) : Entry (before ++ [c]) cs := by
  intro hdice
  have hnone := Spelling.read?_eq_none_iff.mp h
  cases hc : c.isDigit with
  | true =>
    -- Inside a run of digits the dice ahead would have been read before
    rw [List.dropWhile_cons_of_pos hc, hdice] at hnone
    cases hnone
  | false =>
    have hfront : startsDigit (c :: cs) = false := hc
    rw [dropWhile_eq_self hfront] at hnone
    have hcount : countAtEnd (before ++ [c] ++ cs.takeWhile Char.isDigit) =
        if cs.takeWhile Char.isDigit = [] ∨ c = 'd' then none
        else some (cs.takeWhile Char.isDigit) := by
      rw [List.append_assoc]
      apply countAtEnd_append hc before
      exact isDigit_of_mem_takeWhile cs
    by_cases hd : c = 'd'
    · -- Behind a `d` that starts no dice stands no digit
      subst hd
      rw [Spelling.startsDice_cons_d] at hnone
      rw [hcount, takeWhile_eq_nil hnone]
      simp
    · rw [hcount]
      simp only [hd, or_false]

/-- The scanner may go on behind a spelling that was read. -/
theorem entry_of_endsBefore (before : List Char) {s : Spelling} {rest : List Char}
    (hend : s.EndsBefore rest) : Entry (before ++ s.chars) rest := by
  intro hdice
  cases hm : s.modifier with
  | some m =>
    -- Dice are never left behind a modifier
    have hdigit := hend.modifier_end m hm
    have hkept := hend.modifier_kept m hm
    rw [dropWhile_eq_self hdigit, hkept] at hdice
    cases hdice
  | none =>
    -- The digits before the rest are those of the sides
    have hdigit : startsDigit rest = false := by
      simpa [Spelling.modifierChars_of_eq_none hm] using hend.sides_end
    have hcount : countAtEnd (before ++ s.countChars ++ 'd' :: s.sides.digits) = none := by
      rw [countAtEnd_append (by decide) _ s.sides.isDigit_of_mem]
      simp
    simpa [takeWhile_eq_nil hdigit, Spelling.chars_eq, Spelling.modifierChars_of_eq_none hm]
      using hcount

/-! ## §5 What the scanner finds -/

/-- The scanner finds what the local description says of the places ahead. -/
theorem findAll_of_entry (cs before : List Char) (h : Entry before cs) :
    (Spelling.findAll cs).map Spelling.description =
      (placesFrom before cs).map (describeAt (before ++ cs)) := by
  induction cs using Spelling.findAll.induct generalizing before with
  | case1 => simp [Spelling.findAll, placesFrom]
  | case2 c cs s rest hread ih =>
    -- A spelling is taken: its letter is the only place on the way
    obtain ⟨htext, hend, hnone⟩ := Spelling.read?_eq_some_iff.mp hread
    have hcount : countAtEnd (before ++ s.countChars) = s.count.map Numeral.digits := by
      have hdice : Spelling.startsDice ((c :: cs).dropWhile Char.isDigit) = true := by
        rw [htext, s.dropWhile_chars_append]
        exact Spelling.startsDice_append s.sides _
      have hrun := h hdice
      rw [htext, s.takeWhile_chars_append] at hrun
      rw [hrun, s.map_digits_count]
    have hentry : Entry (before ++ s.chars) rest := entry_of_endsBefore before hend
    rw [Spelling.findAll_of_read?_eq_some hread, List.map_cons, ih _ hentry, htext,
      placesFrom_chars, List.map_cons, describeAt_chars before hend hnone hcount,
      List.append_assoc]
  | case3 c cs hread ih =>
    -- A character is passed over: no dice stand there
    have hdice : Spelling.startsDice (c :: cs) = false := by
      cases hdice : Spelling.startsDice (c :: cs) with
      | false => rfl
      | true =>
        have hnone := Spelling.read?_eq_none_iff.mp hread
        rw [dropWhile_eq_self (Spelling.startsDigit_of_startsDice hdice), hdice] at hnone
        cases hnone
    rw [Spelling.findAll_cons_of_read?_eq_none hread, ih _ (entry_of_read?_eq_none before hread),
      placesFrom_cons, hdice]
    simp

/-- **The lenient grammar, place by place**: it finds exactly the dice of a text, in order, each
as it is written around its letter. -/
theorem map_description_findAll (cs : List Char) :
    (Spelling.findAll cs).map Spelling.description = (dicePlaces cs).map (describeAt cs) := by
  rw [findAll_of_entry cs [] (entry_nil cs), placesFrom_nil_left, List.nil_append]

/-- The `2` is the count of dice and no modifier, the `4` in front of a `d` is no count. -/
example :
    (dicePlaces "1d6+2d4d8-1".toList).map (describeAt "1d6+2d4d8-1".toList) =
      [⟨some ['1'], ['6'], none⟩, ⟨some ['2'], ['4'], none⟩,
        ⟨none, ['8'], some (.minus, ['1'])⟩] := by
  decide

theorem findAll_eq_nil_iff (cs : List Char) :
    Spelling.findAll cs = [] ↔ ∀ i, diceAt cs i = false := by
  have hmap : Spelling.findAll cs = [] ↔ dicePlaces cs = [] := by
    rw [← List.map_eq_nil_iff (f := Spelling.description), map_description_findAll,
      List.map_eq_nil_iff]
  rw [hmap, dicePlaces, List.filter_eq_nil_iff]
  refine ⟨fun h i => ?_, fun h i _ => by simp [h i]⟩
  by_cases hi : i < cs.length
  · exact Bool.eq_false_iff.mpr (h i (List.mem_range.mpr hi))
  · -- Behind the end stands nothing
    rw [diceAt_eq, List.drop_eq_nil_of_le (Nat.le_of_not_lt hi)]
    rfl

/-- **Positional meaning of the lenient grammar.** Of every text it finds exactly the dice, in the
order of their places and each as it is written around its place. So an expression has no terms
iff its normal form has no dice, and it is never refused for its syntax. -/
theorem lenient_iff_places :
    (∀ cs : List Char,
      (Spelling.findAll cs).map Spelling.description = (dicePlaces cs).map (describeAt cs)) ∧
    ∀ text : String,
      (Grammar.lenient.parse text = .error (.noTerm (Text.normalize text)) ↔
        ∀ i, diceAt (Text.normalize text).toList i = false) ∧
      ∀ (t : String) (errors : List SyntaxError),
        Grammar.lenient.parse text ≠ .error (.malformed t errors) := by
  refine ⟨map_description_findAll, fun text => ⟨?_, fun t errors h => ?_⟩⟩
  · rw [Grammar.parse_lenient, ← findAll_eq_nil_iff]
    refine ⟨fun h => ?_, fun h => if_pos h⟩
    by_contra hfound
    rw [if_neg hfound] at h
    -- Checking what was found says nothing of missing terms
    exact absurd (Spelling.isAboutNumber_of_mapM h) Bool.false_ne_true
  · rw [Grammar.parse_lenient] at h
    split at h
    · cases h
    · exact absurd (Spelling.isAboutNumber_of_mapM h) Bool.false_ne_true

end DiceNotation
