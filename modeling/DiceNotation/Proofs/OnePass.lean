import DiceNotation.Proofs.Delivery
import DiceNotation.Proofs.Normal

/-!
# Normal Forms Are Final

A text comes to its normal form in one pass. No image of the table of lowercase is a capital or
white space again, as the images of a run lie apart from the capitals of every run
(`caseRuns_clear`). So every character that a pass leaves is one that the next pass keeps
(`isNormal_of_mem_lowercase`), and a text and its normal form are one expression. Main statement:
`normal_form_is_final`.
-/

namespace DiceNotation

namespace Text

/-! ## §1 Images -/

namespace CaseRun

/-- The image of the last capital of a run. -/
def lastImage (run : CaseRun) : Nat :=
  run.image + (run.last - run.first)

/-- No code point from `first` to `last` is an image of the run. -/
def avoids (run : CaseRun) (first last : Nat) : Bool :=
  run.lastImage.blt first || last.blt run.image

/-- The images of a run lie before or behind the capitals of another one, or between them: both
runs take every second code point then. -/
def clears (run other : CaseRun) : Bool :=
  run.avoids other.first other.last ||
    (other.step == 2 && (run.step == 2 || run.first == run.last) &&
      (run.image + other.first) % 2 == 1)

/-- A code point lies among the images of a run. -/
structure Yields (run : CaseRun) (m : Nat) : Prop where
  image_le : run.image ≤ m
  le_lastImage : m ≤ run.lastImage
  step : (m - run.image) % run.step = 0

variable {run other : CaseRun} {m : Nat}

theorem covers_iff {n : Nat} :
    run.covers n = true ↔ (run.first ≤ n ∧ n ≤ run.last) ∧ (n - run.first) % run.step = 0 := by
  simp [covers]

theorem yields_of_covers {n : Nat} (h : run.covers n = true) :
    run.Yields (run.image + (n - run.first)) := by
  obtain ⟨⟨-, hlast⟩, hstep⟩ := covers_iff.mp h
  refine ⟨Nat.le_add_right .., ?_, ?_⟩
  · exact Nat.add_le_add_left (Nat.sub_le_sub_right hlast _) _
  · rwa [Nat.add_sub_cancel_left]

theorem Yields.not_between (h : run.Yields m) {first last : Nat}
    (havoids : run.avoids first last = true) : ¬ (first ≤ m ∧ m ≤ last) := by
  have hlow := h.image_le
  have hhigh := h.le_lastImage
  simp only [avoids, Bool.or_eq_true, Nat.blt_eq] at havoids
  omega

/-- An image is no capital of a run that is cleared. -/
theorem Yields.covers_eq_false (h : run.Yields m) (hclears : run.clears other = true) :
    other.covers m = false := by
  rw [Bool.eq_false_iff]
  intro hcovers
  obtain ⟨hbetween, hother⟩ := covers_iff.mp hcovers
  simp only [clears, Bool.or_eq_true, Bool.and_eq_true, beq_iff_eq] at hclears
  rcases hclears with havoids | ⟨⟨htwo, hrun⟩, hodd⟩
  · exact h.not_between havoids hbetween
  · obtain ⟨hlow, hhigh, hstep⟩ := h
    rw [htwo] at hother
    rcases hrun with hrun | hrun
    · -- Both lie an even distance from the start of their runs
      rw [hrun] at hstep
      omega
    · -- There is one image only, and its distance is odd
      rw [lastImage, hrun] at hhigh
      omega

end CaseRun

/-- The capital that has an image of two characters, as a run of its own. -/
def dottedRun : CaseRun :=
  ⟨0x0130, 0x0130, 1, 0x0069⟩

/-- No image is a capital. -/
theorem caseRuns_clear :
    (caseRuns.all fun run => (dottedRun :: caseRuns).all fun other => run.clears other) = true := by
  decide +kernel

/-- No image is white space. -/
theorem caseRuns_avoid_whiteSpace :
    (caseRuns.all fun run =>
      whiteSpaceRanges.all fun (first, last) => run.avoids first last) = true := by
  decide +kernel

/-- All images are code points of characters. -/
theorem caseRuns_avoid_surrogates :
    (caseRuns.all fun run => run.avoids 0xD800 0xDFFF && run.lastImage.blt 0x110000) = true := by
  decide +kernel

/-- A code point has no image but itself, or its image is one of the table. -/
theorem lowerCodePoint_eq_or_yields (n : Nat) :
    lowerCodePoint n = n ∨ ∃ run ∈ caseRuns, run.Yields (lowerCodePoint n) := by
  cases hfind : caseRuns.find? (·.covers n) with
  | none => exact .inl (by rw [lowerCodePoint, hfind])
  | some run =>
    refine .inr ⟨run, List.mem_of_find?_eq_some hfind, ?_⟩
    have hcovers := List.find?_some hfind
    have himage : lowerCodePoint n = run.image + (n - run.first) := by rw [lowerCodePoint, hfind]
    rw [himage]
    exact CaseRun.yields_of_covers hcovers

section Image

variable {run : CaseRun} (hrun : run ∈ caseRuns) {m : Nat} (hm : run.Yields m)

include hrun hm

theorem CaseRun.Yields.covers_caseRuns_eq_false :
    ∀ other ∈ dottedRun :: caseRuns, other.covers m = false := by
  intro other hother
  have hclears := List.all_eq_true.mp (List.all_eq_true.mp caseRuns_clear run hrun) other hother
  exact hm.covers_eq_false hclears

theorem CaseRun.Yields.isValidChar : m.isValidChar := by
  have h := List.all_eq_true.mp caseRuns_avoid_surrogates run hrun
  obtain ⟨havoids, hlast⟩ := Bool.and_eq_true_iff.mp h
  have hbetween := hm.not_between havoids
  have hle := hm.le_lastImage
  rw [Nat.blt_eq] at hlast
  simp only [Nat.isValidChar]
  omega

theorem CaseRun.Yields.isWhiteSpace_eq_false {c : Char} (hc : c.toNat = m) :
    isWhiteSpace c = false := by
  rw [Bool.eq_false_iff]
  intro hspace
  obtain ⟨range, hrange, hbetween⟩ := List.any_eq_true.mp hspace
  have havoids := List.all_eq_true.mp
    (List.all_eq_true.mp caseRuns_avoid_whiteSpace run hrun) range hrange
  apply hm.not_between havoids
  simpa [hc] using hbetween

end Image

/-! ## §2 Characters of normal forms -/

/-- A character that a pass keeps as it is. -/
structure IsNormal (c : Char) : Prop where
  visible : isWhiteSpace c = false
  small : lowercase c = [c]

/-- A character that is no capital is left as it is. -/
theorem lowercase_of_covers_eq_false {c : Char}
    (h : ∀ run ∈ dottedRun :: caseRuns, run.covers c.toNat = false) : lowercase c = [c] := by
  obtain ⟨hdotted, hruns⟩ := List.forall_mem_cons.mp h
  have hne : c ≠ '\u0130' := by
    rintro rfl
    exact absurd hdotted (by decide)
  have hfind : caseRuns.find? (·.covers c.toNat) = none :=
    List.find?_eq_none.mpr fun run hrun => Bool.eq_false_iff.mp (hruns run hrun)
  rw [lowercase, if_neg hne, lowerCodePoint, hfind, Char.ofNat_toNat]

/-- **What lowercasing leaves is left by it again**, and it is no white space. -/
theorem isNormal_of_mem_lowercase {c : Char} (hc : isWhiteSpace c = false) :
    ∀ d ∈ lowercase c, IsNormal d := by
  intro d hd
  by_cases hdotted : c = '\u0130'
  · subst hdotted
    have hall : ['i', '\u0307'].all (fun d => !isWhiteSpace d && lowercase d == [d]) = true := by
      decide +kernel
    obtain ⟨hvisible, hsmall⟩ := Bool.and_eq_true_iff.mp (List.all_eq_true.mp hall d hd)
    exact ⟨by simpa using hvisible, eq_of_beq hsmall⟩
  · have hlower : lowercase c = [Char.ofNat (lowerCodePoint c.toNat)] := if_neg hdotted
    rw [hlower, List.mem_singleton] at hd
    subst hd
    rcases lowerCodePoint_eq_or_yields c.toNat with hself | ⟨run, hrun, hm⟩
    · -- The character is small already
      rw [hself, Char.ofNat_toNat] at hlower ⊢
      exact ⟨hc, hlower⟩
    · -- It became an image, which no run has for a capital
      have hcode : (Char.ofNat (lowerCodePoint c.toNat)).toNat = lowerCodePoint c.toNat := by
        rw [Char.ofNat, dif_pos (hm.isValidChar hrun)]
        rfl
      refine ⟨hm.isWhiteSpace_eq_false hrun hcode, lowercase_of_covers_eq_false ?_⟩
      rw [hcode]
      exact hm.covers_caseRuns_eq_false hrun

theorem isNormal_of_mem_normalizeChars (cs : List Char) : ∀ c ∈ normalizeChars cs, IsNormal c := by
  intro c hc
  obtain ⟨b, hb, hc⟩ := List.mem_flatMap.mp hc
  have hspace : isWhiteSpace b = false := by simpa using (List.mem_filter.mp hb).2
  exact isNormal_of_mem_lowercase hspace c hc

/-- A pass keeps a text of such characters. -/
theorem normalizeChars_of_isNormal {cs : List Char} (h : ∀ c ∈ cs, IsNormal c) :
    normalizeChars cs = cs := by
  induction cs with
  | nil => rfl
  | cons c cs ih =>
    obtain ⟨hc, hcs⟩ := List.forall_mem_cons.mp h
    rw [normalizeChars_cons, normalizeChars_singleton hc.visible, hc.small, ih hcs,
      List.singleton_append]

theorem normalize_normalize (text : String) : normalize (normalize text) = normalize text := by
  have h := normalizeChars_of_isNormal (isNormal_of_mem_normalizeChars text.toList)
  rw [normalize, normalize, String.toList_ofList, h]

theorem normalize_append (a b : String) : normalize (a ++ b) = normalize a ++ normalize b := by
  simp [normalize, normalizeChars_append]

end Text

/-! ## §3 Expressions -/

/-- The expression that an error keeps as a whole. -/
def NotationError.expression? : NotationError → Option String
  | noTerm text | malformed text _ => some text
  | count _ | sides _ | modifier _ => none

theorem NotationError.expression?_of_isAboutNumber {error : NotationError}
    (h : error.isAboutNumber = true) : error.expression? = none := by
  cases error with
  | count | sides | modifier => rfl
  | noTerm | malformed => cases h

namespace Grammar

theorem parse_normalize (grammar : Grammar) (text : String) :
    grammar.parse (Text.normalize text) = grammar.parse text :=
  parse_of_normalize_eq (Text.normalize_normalize text) grammar

/-- What an error keeps of an expression is its normal form. -/
theorem eq_normalize_of_parse {grammar : Grammar} {text kept : String} {error : NotationError}
    (h : grammar.parse text = .error error) (hkept : error.expression? = some kept) :
    kept = Text.normalize text := by
  -- An error about a number keeps that number, so checking is not where it comes from
  have hnumber : error.isAboutNumber = false := by
    rw [Bool.eq_false_iff]
    intro hnumber
    rw [NotationError.expression?_of_isAboutNumber hnumber] at hkept
    cases hkept
  have hchecked : ∀ found : List Spelling, found.mapM Spelling.toTerm ≠ .error error := by
    intro found hfound
    rw [Spelling.isAboutNumber_of_mapM hfound] at hnumber
    cases hnumber
  cases grammar with
  | lenient =>
    rw [parse_lenient] at h
    split at h
    · obtain rfl := Except.error.inj h
      exact (Option.some.inj hkept).symm
    · exact absurd h (hchecked _)
  | strict =>
    cases hsum : Spelling.readSum? (Text.normalize text).toList with
    | some found => exact absurd (parse_of_readSum? hsum strict ▸ h) (hchecked found)
    | none =>
      rw [parse_strict_of_readSum?_eq_none hsum] at h
      obtain rfl := Except.error.inj h
      exact (Option.some.inj hkept).symm

end Grammar

/-- **Normal forms are final.** The normal form of a text is its own normal form, nothing in it is
white space or changed by lowercasing, and the normal form of a text in two parts is that of the one
followed by that of the other. So a text and its normal form are one expression for both grammars,
and an error that keeps an expression is the error of what it keeps. -/
theorem normal_form_is_final :
    (∀ text : String, Text.normalize (Text.normalize text) = Text.normalize text ∧
      ∀ c ∈ (Text.normalize text).toList, Text.isWhiteSpace c = false ∧ Text.lowercase c = [c]) ∧
    (∀ a b : String, Text.normalize (a ++ b) = Text.normalize a ++ Text.normalize b) ∧
    ∀ (grammar : Grammar) (text : String),
      grammar.parse (Text.normalize text) = grammar.parse text ∧
      grammar.accepts (Text.normalize text) = grammar.accepts text ∧
      ∀ error kept, grammar.parse text = .error error → error.expression? = some kept →
        grammar.parse kept = .error error := by
  refine ⟨fun text => ⟨Text.normalize_normalize text, fun c hc => ?_⟩, Text.normalize_append,
    fun grammar text => ⟨grammar.parse_normalize text, ?_, fun error kept h hkept => ?_⟩⟩
  · rw [Text.normalize, String.toList_ofList] at hc
    have hnormal := Text.isNormal_of_mem_normalizeChars text.toList c hc
    exact ⟨hnormal.visible, hnormal.small⟩
  · exact Grammar.accepts_of_normalize_eq (Text.normalize_normalize text) grammar
  · rw [Grammar.eq_normalize_of_parse h hkept, grammar.parse_normalize, h]

/-- An error about a capital that becomes two characters is found again in what it keeps. -/
theorem normal_form_is_final_of_dotted_capital :
    let error : NotationError :=
      .malformed "2d6i\u0307" [⟨3, 4, "found i expected '+', or '-'"⟩]
    Grammar.strict.parse "2 D6\u2003\u0130" = .error error ∧
      error.expression? = some "2d6i\u0307" ∧ Grammar.strict.parse "2d6i\u0307" = .error error := by
  intro error
  have herror : Grammar.strict.parse "2 D6\u2003\u0130" = .error error := by decide +kernel
  have hkept : error.expression? = some "2d6i\u0307" := rfl
  exact ⟨herror, hkept, (normal_form_is_final.2.2 .strict _).2.2 error _ herror hkept⟩

end DiceNotation
