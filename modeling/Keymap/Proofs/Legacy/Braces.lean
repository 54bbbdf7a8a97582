import Keymap.Expr.Template
import Keymap.Legacy.Braces
import Mathlib.Data.List.Basic

/-!
What doubling does to the placeholders of a text: it leaves none in single braces (`double_clears`),
and where no braces were double before, each becomes a span of a template (`span_of_single`).
-/

set_option autoImplicit false

namespace Keymap.Braces

def Braceless (text : List Char) : Prop := '{' ∉ text ∧ '}' ∉ text

/-- A text holds a name in single braces. -/
def HoldsSingle (name text : List Char) : Prop :=
  Braceless name ∧ ∃ before after, text = before ++ '{' :: (name ++ '}' :: after) ∧
    before.getLast? ≠ some '{' ∧ after.head? ≠ some '}'

/-- What follows an opening brace is a name and a single closing one. -/
def Closes (name text : List Char) : Prop :=
  ∃ after, text = name ++ '}' :: after ∧ after.head? ≠ some '}'

/-- The rest of a text holds a name in single braces, after an opening brace or not. -/
def SingleAfter (name : List Char) : Bool → List Char → Prop
  | _, [] => False
  | afterOpening, c :: rest =>
      (afterOpening = false ∧ c = '{' ∧ Closes name rest) ∨ SingleAfter name (c = '{') rest

theorem singleAfter_past_opening (name : List Char) (c : Char) (rest : List Char) :
    SingleAfter name true (c :: rest) ↔ SingleAfter name (c = '{') rest := by
  simp [SingleAfter]

theorem singleAfter_past_plain (name : List Char) (afterOpening : Bool) (c : Char)
    (rest : List Char) (plain : c ≠ '{') :
    SingleAfter name afterOpening (c :: rest) ↔ SingleAfter name false rest := by
  simp [SingleAfter, plain]

theorem singleAfter_iff (name text : List Char) (afterOpening : Bool) :
    SingleAfter name afterOpening text ↔ ∃ before after,
      text = before ++ '{' :: (name ++ '}' :: after) ∧
        (if before = [] then afterOpening = false else before.getLast? ≠ some '{') ∧
          after.head? ≠ some '}' := by
  induction text generalizing afterOpening with
  | nil => simp [SingleAfter]
  | cons c rest ih =>
    rw [SingleAfter, ih]
    constructor
    · rintro (⟨closed, rfl, after, rfl, single⟩ | ⟨before, after, rfl, clear, single⟩)
      · exact ⟨[], after, rfl, by simpa using closed, single⟩
      · refine ⟨c :: before, after, rfl, ?_, single⟩
        cases before with
        | nil => simpa using clear
        | cons d others => simpa using clear
    · rintro ⟨before, after, same, clear, single⟩
      cases before with
      | nil =>
        cases same
        exact .inl ⟨by simpa using clear, rfl, after, rfl, single⟩
      | cons d others =>
        cases same
        refine .inr ⟨others, after, rfl, ?_, single⟩
        cases others with
        | nil => simpa using clear
        | cons e further => simpa using clear

theorem holdsSingle_iff (name text : List Char) :
    HoldsSingle name text ↔ Braceless name ∧ SingleAfter name false text := by
  rw [HoldsSingle, singleAfter_iff]
  refine and_congr_right fun _ => exists₂_congr fun before after => and_congr_right fun _ => ?_
  cases before <;> simp

/-- Text without opening braces holds no placeholder, and none starts in it. -/
theorem singleAfter_append (name chunk rest : List Char) (afterOpening : Bool)
    (nonempty : chunk ≠ []) (plain : '{' ∉ chunk) :
    SingleAfter name afterOpening (chunk ++ rest) ↔ SingleAfter name false rest := by
  induction chunk generalizing afterOpening with
  | nil => exact absurd rfl nonempty
  | cons c others ih =>
    obtain ⟨other, plain⟩ := not_or.mp (mt List.mem_cons.mpr plain)
    rw [List.cons_append, singleAfter_past_plain name afterOpening c _ (Ne.symm other)]
    cases others with
    | nil => rfl
    | cons d further => exact ih _ (List.cons_ne_nil d further) plain

theorem not_singleAfter_plain (name text : List Char) (afterOpening : Bool) (plain : '{' ∉ text) :
    ¬ SingleAfter name afterOpening text := by
  cases text with
  | nil => exact id
  | cons c rest =>
    rw [← List.append_nil (c :: rest), singleAfter_append name _ [] _ (by simp) plain]
    exact id

theorem Braceless.reverse (text : List Char) (clear : Braceless text) : Braceless text.reverse :=
  ⟨by simpa using clear.1, by simpa using clear.2⟩

theorem not_singleAfter_unclosed (name passed : List Char) (clear : Braceless passed) :
    ¬ SingleAfter name false ('{' :: passed) := by
  rw [SingleAfter]
  rintro (⟨_, _, after, same, _⟩ | opened)
  · exact clear.2 (by simp [same])
  · exact not_singleAfter_plain name _ _ clear.1 opened

theorem scan_inside_opens (passed text : List Char) :
    ∃ rest, scan (.inside passed) text = '{' :: rest := by
  induction text generalizing passed with
  | nil => exact ⟨_, rfl⟩
  | cons c rest ih =>
    unfold scan
    split
    · split <;> exact ⟨_, rfl⟩
    · split
      · split <;> exact ⟨_, rfl⟩
      · exact ih _

theorem head_scan_closing (text : List Char) (closes : text.head? = some '}') :
    (scan (.outside false) text).head? = some '}' := by
  cases text with
  | nil => cases closes
  | cons c rest =>
    cases closes
    rfl

/-- What a scan writes holds no placeholder. What was passed since a brace is part of it. -/
def Scan.Clears (name output : List Char) : Scan → Prop
  | .outside afterOpening => ¬ SingleAfter name afterOpening output
  | .inside passed => Braceless passed → ¬ SingleAfter name false output

section Scan

variable (name : List Char) (braceless : Braceless name)

include braceless

/-- A name reaches up to the first brace, which closes. -/
theorem closes_at_iff (passed rest : List Char) (brace : Char) (clear : '}' ∉ passed)
    (next : brace = '{' ∨ brace = '}') : Closes name (passed ++ brace :: rest) ↔
      name = passed ∧ brace = '}' ∧ rest.head? ≠ some '}' := by
  constructor
  · rintro ⟨after, same, single⟩
    rcases List.append_eq_append_iff.mp same with ⟨further, rfl, held⟩ | ⟨further, rfl, held⟩
    · cases further with
      | nil =>
        cases held
        exact ⟨List.append_nil passed, rfl, single⟩
      | cons c others =>
        cases held
        rcases next with rfl | rfl
        · exact absurd (by simp) braceless.1
        · exact absurd (by simp) braceless.2
    · cases further with
      | nil =>
        cases held
        exact ⟨(List.append_nil name).symm, rfl, single⟩
      | cons c others =>
        cases held
        exact absurd (by simp) clear
  · rintro ⟨rfl, rfl, single⟩
    exact ⟨rest, rfl, single⟩

/-- After an opening brace and text without braces comes another brace. -/
theorem singleAfter_opened (passed rest : List Char) (brace : Char) (clear : Braceless passed)
    (next : brace = '{' ∨ brace = '}') :
    SingleAfter name false ('{' :: (passed ++ brace :: rest)) ↔
      (name = passed ∧ brace = '}' ∧ rest.head? ≠ some '}') ∨
        SingleAfter name (passed.isEmpty) (brace :: rest) := by
  rw [SingleAfter, closes_at_iff name braceless passed rest brace clear.2 next]
  simp only [true_and, decide_true]
  refine or_congr_right ?_
  cases passed with
  | nil => rfl
  | cons c others => exact singleAfter_append name _ _ true (by simp) clear.1

theorem singleAfter_double (rest : List Char) :
    SingleAfter name false ('{' :: '{' :: rest) ↔ SingleAfter name true rest := by
  have opened := singleAfter_opened name braceless [] rest '{' ⟨List.not_mem_nil, List.not_mem_nil⟩
    (.inl rfl)
  rw [List.nil_append] at opened
  rw [opened]
  simp [singleAfter_past_opening]

/-- Wherever a scan starts, what it writes holds no placeholder from there on. -/
theorem scan_clears (state : Scan) (text : List Char) : state.Clears name (scan state text) := by
  fun_induction scan state text with
  | case1 => exact id
  | case2 passed => exact fun clear => not_singleAfter_unclosed name _ (clear.reverse passed)
  | case3 rest ih => exact mt (singleAfter_past_opening name '{' _).mp ih
  | case4 afterOpening rest fresh ih =>
    rw [(Bool.not_eq_true _).mp fresh]
    exact ih ⟨List.not_mem_nil, List.not_mem_nil⟩
  | case5 afterOpening c rest other ih =>
    exact mt (singleAfter_past_plain name afterOpening c _ other).mp ih
  | case6 passed rest fresh ih => exact fun _ => mt (singleAfter_double name braceless _).mp ih
  | case7 passed rest longer ih =>
    intro clear
    obtain ⟨further, opens⟩ := scan_inside_opens [] rest
    rw [opens, List.cons_append,
      singleAfter_opened name braceless _ _ '{' (clear.reverse passed) (.inl rfl), ← opens]
    have fresh := ih ⟨List.not_mem_nil, List.not_mem_nil⟩
    simpa [longer] using fresh
  | case8 passed rest double _ ih =>
    intro clear
    rw [List.cons_append,
      singleAfter_opened name braceless _ _ '}' (clear.reverse passed) (.inr rfl),
      singleAfter_past_plain name _ '}' _ (by decide), head_scan_closing rest double]
    simpa [Scan.Clears] using ih
  | case9 passed rest single _ ih =>
    intro clear
    rw [List.cons_append, List.cons_append, singleAfter_double name braceless]
    have plain : '{' ∉ passed.reverse ++ ['}', '}'] := by
      simpa using clear.1
    have later := singleAfter_append name _ (scan (.outside false) rest) true (by simp) plain
    simp only [List.append_assoc, List.cons_append, List.nil_append] at later
    rw [later]
    exact ih
  | case10 passed c rest opens closes ih =>
    exact fun clear => ih ⟨by simpa [Ne.symm opens] using clear.1,
      by simpa [Ne.symm closes] using clear.2⟩

end Scan

/-- A text whose braces were doubled holds nothing in single braces. -/
theorem double_clears (name : List Char) (text : String) :
    ¬ HoldsSingle name (double text).toList := by
  rw [holdsSingle_iff, double, String.toList_ofList]
  rintro ⟨braceless, holds⟩
  exact scan_clears name braceless (.outside false) text.toList holds

section Spans

open Template (cut Segment segments)

theorem cut_plain (passed chunk rest : List Char) (plain : '{' ∉ chunk) :
    cut (.outside passed) (chunk ++ rest) = cut (.outside (chunk.reverse ++ passed)) rest := by
  induction chunk generalizing passed with
  | nil => rfl
  | cons c others ih =>
    obtain ⟨other, plain⟩ := not_or.mp (mt List.mem_cons.mpr plain)
    rw [List.cons_append, cut, ih (c :: passed) plain]
    · simp
    · rintro _ rfl
      exact absurd rfl other

theorem cut_lone_opening (passed chunk rest : List Char) (nonempty : chunk ≠ [])
    (plain : '{' ∉ chunk) :
    cut (.outside passed) ('{' :: (chunk ++ rest)) =
      cut (.outside (chunk.reverse ++ '{' :: passed)) rest := by
  cases chunk with
  | nil => exact absurd rfl nonempty
  | cons c others =>
    obtain ⟨other, _⟩ := not_or.mp (mt List.mem_cons.mpr plain)
    rw [← cut_plain _ _ rest plain, List.cons_append, cut]
    rintro _ _ same
    exact other (List.cons.inj same).1.symm

theorem cut_span (passed chunk rest : List Char) (unclosed : '}' ∉ chunk) :
    cut (.inside passed) (chunk ++ '}' :: '}' :: rest) =
      .span (passed.reverse ++ chunk) :: cut (.outside []) rest := by
  induction chunk generalizing passed with
  | nil => simp [cut]
  | cons c others ih =>
    obtain ⟨other, unclosed⟩ := not_or.mp (mt List.mem_cons.mpr unclosed)
    rw [List.cons_append, cut, ih (c :: passed) unclosed]
    · simp
    · rintro _ rfl
      exact absurd rfl other

/-- No braces open right after each other. -/
def OpensOnce (text : List Char) : Prop := ¬ ['{', '{'] <:+: text

theorem OpensOnce.right (left right : List Char) (opens : OpensOnce (left ++ right)) :
    OpensOnce right := fun double => opens (double.trans (List.suffix_append left right).isInfix)

/-- What a placeholder of a text becomes when the text is scanned and cut as a template. -/
def Scan.Spans (name text output : List Char) : Scan → Prop
  | .outside afterOpening => afterOpening = false → OpensOnce text → SingleAfter name false text →
      ∀ before, Segment.span name ∈ cut (.outside before) output
  | .inside passed => Braceless passed → OpensOnce ('{' :: (passed.reverse ++ text)) →
      SingleAfter name false ('{' :: (passed.reverse ++ text)) →
        ∀ before, Segment.span name ∈ cut (.outside before) output

theorem scan_spans (name : List Char) (braceless : Braceless name) (state : Scan)
    (text : List Char) : state.Spans name text (scan state text) := by
  fun_induction scan state text with
  | case1 => exact fun _ _ unspanned => absurd unspanned id
  | case2 passed =>
    intro clear _ holds
    rw [List.append_nil] at holds
    exact absurd holds (not_singleAfter_unclosed name _ (clear.reverse passed))
  | case3 rest ih => exact fun fresh => nomatch fresh
  | case4 afterOpening rest fresh ih =>
    exact fun _ => ih ⟨List.not_mem_nil, List.not_mem_nil⟩
  | case5 afterOpening c rest other ih =>
    intro _ opens holds before
    rw [singleAfter_past_plain name _ c rest other] at holds
    have later := ih rfl (OpensOnce.right [c] rest opens) holds (c :: before)
    rw [← List.singleton_append, cut_plain before [c] _ (by simpa using Ne.symm other)]
    exact later
  | case6 passed rest fresh ih =>
    intro _ opens
    obtain rfl := List.isEmpty_iff.mp fresh
    exact absurd (List.prefix_append ['{', '{'] rest).isInfix opens
  | case7 passed rest longer ih =>
    intro clear opens holds before
    have turned := clear.reverse passed
    rw [singleAfter_opened name braceless _ _ '{' turned (.inl rfl)] at holds
    rw [List.cons_append, cut_lone_opening before _ _ (by simpa using longer) turned.1]
    have later := ih ⟨List.not_mem_nil, List.not_mem_nil⟩
      (OpensOnce.right ('{' :: passed.reverse) ('{' :: rest) opens)
    exact later (by simpa [longer] using holds) _
  | case8 passed rest double _ ih =>
    intro clear opens holds before
    have turned := clear.reverse passed
    rw [singleAfter_opened name braceless _ _ '}' turned (.inr rfl),
      singleAfter_past_plain name _ '}' _ (by decide)] at holds
    have shorter := OpensOnce.right ('{' :: (passed.reverse ++ ['}'])) rest (by simpa using opens)
    have later := ih rfl shorter (by simpa [double] using holds)
    have split : '{' :: passed.reverse ++ '}' :: scan (.outside false) rest =
        '{' :: ((passed.reverse ++ ['}']) ++ scan (.outside false) rest) := by simp
    rw [split, cut_lone_opening before _ _ (by simp) (by simpa using clear.1)]
    exact later _
  | case9 passed rest single _ ih =>
    intro clear opens holds before
    have turned := clear.reverse passed
    rw [singleAfter_opened name braceless _ _ '}' turned (.inr rfl),
      singleAfter_past_plain name _ '}' _ (by decide)] at holds
    rw [List.cons_append, List.cons_append, cut, cut_span [] _ _ turned.2, List.reverse_nil,
      List.nil_append]
    rcases holds with ⟨rfl, _⟩ | later
    · exact .tail _ (.head _)
    · have shorter := OpensOnce.right ('{' :: (passed.reverse ++ ['}'])) rest (by simpa using opens)
      exact .tail _ (.tail _ (ih rfl shorter later []))
  | case10 passed c rest opens closes ih =>
    intro clear once holds
    have longer : Braceless (c :: passed) :=
      ⟨by simpa [Ne.symm opens] using clear.1, by simpa [Ne.symm closes] using clear.2⟩
    exact ih longer (by simpa using once) (by simpa using holds)

/-- Where braces open one at a time, every placeholder becomes a span of the template. -/
theorem span_of_single (name : List Char) (text : String) (opens : OpensOnce text.toList)
    (holds : HoldsSingle name text.toList) :
    Segment.span name ∈ segments (double text).toList := by
  obtain ⟨braceless, single⟩ := (holdsSingle_iff name text.toList).mp holds
  rw [segments, double, String.toList_ofList]
  exact scan_spans name braceless (.outside false) text.toList rfl opens single []

end Spans

end Keymap.Braces
