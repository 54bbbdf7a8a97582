import Keymap.Proofs.Legacy.Braces
import Mathlib.Data.List.Basic

/-!
Where doubling adds braces. A text is cut from left to right at its placeholders (`Cut`); each of
them gets one brace more on either side, and all else is copied. What comes out holds no
placeholder, so doubling it again changes nothing (`doubling_settles`).
-/

set_option autoImplicit false

namespace Keymap.Braces

/-- A text is made of placeholders and of the characters beside them. -/
inductive Piece where
  | placeholder (name : List Char)
  | beside (c : Char)

def Piece.single : Piece → List Char
  | .placeholder name => '{' :: (name ++ ['}'])
  | .beside c => [c]

def Piece.doubled : Piece → List Char
  | .placeholder name => '{' :: ((Piece.placeholder name).single ++ ['}'])
  | .beside c => [c]

/-- A name in single braces, with the parts of the text before and after it. -/
def Stands (text before name after : List Char) : Prop :=
  text = before ++ '{' :: (name ++ '}' :: after) ∧ Braceless name ∧
    before.getLast? ≠ some '{' ∧ after.head? ≠ some '}'

/-- The same in the rest of a text, which comes after an opening brace or not. -/
def StandsAfter (afterOpening : Bool) (text before name after : List Char) : Prop :=
  text = before ++ '{' :: (name ++ '}' :: after) ∧ Braceless name ∧
    (if before = [] then afterOpening = false else before.getLast? ≠ some '{') ∧
      after.head? ≠ some '}'

theorem stands_iff (text before name after : List Char) :
    Stands text before name after ↔ StandsAfter false text before name after := by
  rw [Stands, StandsAfter]
  cases before <;> simp

theorem holdsSingle_iff_stands (name text : List Char) :
    HoldsSingle name text ↔ ∃ before after, Stands text before name after := by
  constructor
  · rintro ⟨braceless, before, after, same, opens, closes⟩
    exact ⟨before, after, same, braceless, opens, closes⟩
  · rintro ⟨before, after, same, braceless, opens, closes⟩
    exact ⟨braceless, before, after, same, opens, closes⟩

theorem standsAfter_cons (afterOpening : Bool) (c : Char) (rest before name after : List Char) :
    StandsAfter afterOpening (c :: rest) before name after ↔
      (before = [] ∧ afterOpening = false ∧ c = '{' ∧ Braceless name ∧
        rest = name ++ '}' :: after ∧ after.head? ≠ some '}') ∨
      ∃ others, before = c :: others ∧ StandsAfter (c = '{') rest others name after := by
  unfold StandsAfter
  constructor
  · rintro ⟨same, braceless, clear, closes⟩
    cases before with
    | nil =>
      cases same
      exact .inl ⟨rfl, by simpa using clear, rfl, braceless, rfl, closes⟩
    | cons d others =>
      cases same
      refine .inr ⟨others, rfl, rfl, braceless, ?_, closes⟩
      cases others with
      | nil => simpa using clear
      | cons e further => simpa using clear
  · rintro (⟨rfl, fresh, rfl, braceless, rfl, closes⟩ |
      ⟨others, rfl, rfl, braceless, clear, closes⟩)
    · exact ⟨rfl, braceless, by simpa using fresh, closes⟩
    · refine ⟨rfl, braceless, ?_, closes⟩
      cases others with
      | nil => simpa using clear
      | cons e further => simpa using clear

/-- Past some text without opening braces. -/
theorem standsAfter_append (chunk : List Char) (nonempty : chunk ≠ []) (plain : '{' ∉ chunk)
    (afterOpening : Bool) (rest before name after : List Char) :
    StandsAfter afterOpening (chunk ++ rest) before name after ↔
      ∃ others, before = chunk ++ others ∧ StandsAfter false rest others name after := by
  induction chunk generalizing afterOpening before with
  | nil => exact absurd rfl nonempty
  | cons c others ih =>
    obtain ⟨other, plain⟩ := not_or.mp (mt List.mem_cons.mpr plain)
    rw [List.cons_append, standsAfter_cons]
    simp only [Ne.symm other, false_and, and_false, false_or, decide_false, List.cons_append]
    cases others with
    | nil => rfl
    | cons d further =>
      simp only [ih (List.cons_ne_nil d further) plain false]
      constructor
      · rintro ⟨_, rfl, between, rfl, stands⟩
        exact ⟨between, rfl, stands⟩
      · rintro ⟨between, rfl, stands⟩
        exact ⟨_, rfl, between, rfl, stands⟩

/-- A text cut at its placeholders, from left to right. -/
inductive Cut : Bool → List Char → List Piece → Prop where
  | nothing (afterOpening : Bool) : Cut afterOpening [] []
  | placeholder (name rest : List Char) (pieces : List Piece) (braceless : Braceless name)
      (closes : rest.head? ≠ some '}') (later : Cut false rest pieces) :
      Cut false ('{' :: (name ++ '}' :: rest)) (.placeholder name :: pieces)
  | beside (afterOpening : Bool) (c : Char) (rest : List Char) (pieces : List Piece)
      (starts : ∀ name, Braceless name → ¬ (afterOpening = false ∧ c = '{' ∧ Closes name rest))
      (later : Cut (c = '{') rest pieces) : Cut afterOpening (c :: rest) (.beside c :: pieces)

theorem Cut.written (afterOpening : Bool) (text : List Char) (pieces : List Piece)
    (cut : Cut afterOpening text pieces) : pieces.flatMap Piece.single = text := by
  induction cut with
  | nothing => rfl
  | placeholder name rest pieces _ _ _ ih => simp [Piece.single, ih]
  | beside afterOpening c rest pieces _ _ ih => simp [Piece.single, ih]

/-- The placeholders of a cut text are all that stand in it, each at its place. -/
theorem Cut.stands_iff (afterOpening : Bool) (text : List Char) (pieces : List Piece)
    (cut : Cut afterOpening text pieces) (before name after : List Char) :
    StandsAfter afterOpening text before name after ↔ ∃ front back,
      pieces = front ++ .placeholder name :: back ∧
        before = front.flatMap Piece.single ∧ after = back.flatMap Piece.single := by
  induction cut generalizing before with
  | nothing => simp [StandsAfter]
  | placeholder first rest pieces braceless closes later ih =>
    have plain : '{' ∉ first ++ ['}'] := by simpa using braceless.1
    have split : first ++ '}' :: rest = (first ++ ['}']) ++ rest := by simp
    rw [standsAfter_cons, split]
    simp only [standsAfter_append _ (by simp) plain, ih]
    constructor
    · rintro (⟨rfl, _, _, clear, same, single⟩ | ⟨_, rfl, others, rfl, front, back, rfl, rfl, rfl⟩)
      · rw [← split] at same
        obtain ⟨rfl, _⟩ := (closes_at_iff name clear first rest '}' braceless.2 (.inr rfl)).mp
          ⟨after, same, single⟩
        cases List.append_cancel_left same
        exact ⟨[], pieces, rfl, rfl, (Cut.written _ _ _ later).symm⟩
      · exact ⟨.placeholder first :: front, back, rfl, by simp [Piece.single], rfl⟩
    · rintro ⟨front, back, same, rfl, rfl⟩
      cases front with
      | nil =>
        cases same
        rw [Cut.written _ _ _ later]
        exact .inl ⟨rfl, trivial, trivial, braceless, split.symm, closes⟩
      | cons piece others =>
        cases same
        exact .inr ⟨_, rfl, others.flatMap Piece.single, rfl, others, back, rfl, rfl,
          rfl⟩
  | beside afterOpening c rest pieces starts later ih =>
    rw [standsAfter_cons]
    simp only [ih]
    constructor
    · rintro (⟨_, fresh, opens, clear, same, closes⟩ | ⟨_, rfl, front, back, rfl, rfl, rfl⟩)
      · exact absurd ⟨fresh, opens, after, same, closes⟩ (starts name clear)
      · exact ⟨.beside c :: front, back, rfl, by simp [Piece.single], rfl⟩
    · rintro ⟨front, back, same, rfl, rfl⟩
      cases front with
      | nil => cases same
      | cons piece others =>
        cases same
        refine .inr ⟨others.flatMap Piece.single, ?_, others, back, rfl, rfl, rfl⟩
        simp [Piece.single]

theorem Cut.along (chunk : List Char) (plain : '{' ∉ chunk) (afterOpening : Bool)
    (rest : List Char) (pieces : List Piece)
    (later : Cut (chunk.isEmpty && afterOpening) rest pieces) :
    Cut afterOpening (chunk ++ rest) (chunk.map .beside ++ pieces) := by
  induction chunk generalizing afterOpening with
  | nil => exact later
  | cons c others ih =>
    obtain ⟨other, plain⟩ := not_or.mp (mt List.mem_cons.mpr plain)
    refine .beside afterOpening c _ _ (fun _ _ starts => other starts.2.1.symm) (ih plain _ ?_)
    simpa [Ne.symm other] using later

theorem doubled_beside (chunk : List Char) :
    (chunk.map Piece.beside).flatMap Piece.doubled = chunk := by
  induction chunk with
  | nil => rfl
  | cons c rest ih => simpa [Piece.doubled] using ih

/-- What a scan writes is the text, cut at its placeholders and with each of them doubled. What was
passed since a brace belongs to the text. -/
def Scan.Cuts (text output : List Char) : Scan → Prop
  | .outside afterOpening =>
      ∃ pieces, Cut afterOpening text pieces ∧ output = pieces.flatMap Piece.doubled
  | .inside passed => Braceless passed →
      ∃ pieces, Cut false ('{' :: (passed.reverse ++ text)) pieces ∧
        output = pieces.flatMap Piece.doubled

/-- A brace that opens no placeholder is copied, and so is what was passed since. -/
theorem Scan.cuts_copied (chunk rest output : List Char) (plain : '{' ∉ chunk)
    (starts : ∀ name, Braceless name → ¬ Closes name (chunk ++ rest))
    (later : (Scan.outside chunk.isEmpty).Cuts rest output) :
    ∃ pieces, Cut false ('{' :: (chunk ++ rest)) pieces ∧
      '{' :: (chunk ++ output) = pieces.flatMap Piece.doubled := by
  obtain ⟨pieces, cut, rfl⟩ := later
  refine ⟨.beside '{' :: (chunk.map .beside ++ pieces), ?_, ?_⟩
  · refine .beside false '{' _ _ (fun name clear opened => starts name clear opened.2.2) ?_
    exact Cut.along chunk plain _ rest pieces (by simpa using cut)
  · simp [Piece.doubled, doubled_beside]

theorem scan_cuts (state : Scan) (text : List Char) : state.Cuts text (scan state text) := by
  fun_induction scan state text with
  | case1 afterOpening => exact ⟨[], .nothing afterOpening, rfl⟩
  | case2 passed =>
    intro clear
    have turned := clear.reverse passed
    have copied := Scan.cuts_copied passed.reverse [] [] turned.1 ?_ ⟨[], .nothing _, rfl⟩
    · simpa using copied
    · rintro name _ ⟨after, same, _⟩
      rw [List.append_nil] at same
      exact turned.2 (by simp [same])
  | case3 rest ih =>
    obtain ⟨pieces, cut, same⟩ := ih
    exact ⟨.beside '{' :: pieces, .beside true '{' rest pieces (by simp) cut,
      by simp [Piece.doubled, same]⟩
  | case4 afterOpening rest fresh ih =>
    rw [(Bool.not_eq_true _).mp fresh]
    exact ih ⟨List.not_mem_nil, List.not_mem_nil⟩
  | case5 afterOpening c rest other ih =>
    obtain ⟨pieces, cut, same⟩ := ih
    refine ⟨.beside c :: pieces, .beside afterOpening c rest pieces ?_ ?_,
      by simp [Piece.doubled, same]⟩
    · exact fun _ _ starts => other starts.2.1
    · simpa [other] using cut
  | case6 passed rest fresh ih =>
    intro _
    obtain rfl := List.isEmpty_iff.mp fresh
    obtain ⟨pieces, cut, same⟩ := ih
    refine Scan.cuts_copied [] ('{' :: rest) ('{' :: _) List.not_mem_nil ?_ ?_
    · intro name braceless closes
      have reached :=
        (closes_at_iff name braceless [] rest '{' List.not_mem_nil (.inl rfl)).mp closes
      exact absurd reached.2.1 (by decide)
    · exact ⟨.beside '{' :: pieces, .beside true '{' rest pieces (by simp) cut,
        by simp [Piece.doubled, same]⟩
  | case7 passed rest longer ih =>
    intro clear
    have turned := clear.reverse passed
    refine Scan.cuts_copied passed.reverse ('{' :: rest) _ turned.1 ?_ ?_
    · intro name braceless closes
      have reached := (closes_at_iff name braceless _ rest '{' turned.2 (.inl rfl)).mp closes
      exact absurd reached.2.1 (by decide)
    · have empty : passed.reverse.isEmpty = false := by simpa using longer
      rw [empty]
      exact ih ⟨List.not_mem_nil, List.not_mem_nil⟩
  | case8 passed rest double _ ih =>
    intro clear
    have turned := clear.reverse passed
    have filled : (passed.reverse ++ ['}']).isEmpty = false := by simp
    have copied := Scan.cuts_copied (passed.reverse ++ ['}']) rest (scan (.outside false) rest)
      (by simpa using clear.1) ?_ (by rwa [filled])
    · simpa using copied
    · intro name braceless closes
      rw [List.append_assoc, List.singleton_append] at closes
      have reached := (closes_at_iff name braceless _ rest '}' turned.2 (.inr rfl)).mp closes
      exact absurd double reached.2.2
  | case9 passed rest single _ ih =>
    intro clear
    obtain ⟨pieces, cut, same⟩ := ih
    exact ⟨.placeholder passed.reverse :: pieces,
      .placeholder passed.reverse rest pieces (clear.reverse passed) single cut,
      by simp [Piece.doubled, Piece.single, same]⟩
  | case10 passed c rest opens closes ih =>
    intro clear
    have longer : Braceless (c :: passed) :=
      ⟨by simpa [Ne.symm opens] using clear.1, by simpa [Ne.symm closes] using clear.2⟩
    simpa using ih longer

/-- A text in which nothing stands in single braces is kept. -/
theorem double_of_clear (text : String) (clear : ∀ name, ¬ HoldsSingle name text.toList) :
    double text = text := by
  obtain ⟨pieces, cut, same⟩ := scan_cuts (.outside false) text.toList
  have copied : ∀ piece ∈ pieces, piece.doubled = piece.single := by
    intro piece member
    cases piece with
    | beside c => rfl
    | placeholder name =>
      obtain ⟨front, back, split⟩ := List.append_of_mem member
      have found := (Cut.stands_iff false _ pieces cut _ name _).mpr ⟨front, back, split, rfl, rfl⟩
      rw [← stands_iff] at found
      exact absurd ((holdsSingle_iff_stands name _).mpr ⟨_, _, found⟩) (clear name)
  have written : pieces.flatMap Piece.doubled = text.toList := by
    rw [← Cut.written false _ pieces cut, List.flatMap_def, List.flatMap_def,
      List.map_congr_left copied]
  rw [double, same, written, String.ofList_toList]

theorem double_twice (text : String) : double (double text) = double text :=
  double_of_clear (double text) fun name => double_clears name text

mutual

theorem doubleIn_twice : (value : Value) → doubleIn (doubleIn value) = doubleIn value
  | .text content => congrArg Value.text (double_twice content)
  | .list items => congrArg Value.list (doubleInItems_twice items)
  | .object fields => congrArg Value.object (doubleInFields_twice fields)
  | .undefined | .null | .bool _ | .number _ => rfl

theorem doubleInItems_twice : (items : List Value) →
    doubleInItems (doubleInItems items) = doubleInItems items
  | [] => rfl
  | item :: rest => congrArg₂ List.cons (doubleIn_twice item) (doubleInItems_twice rest)

theorem doubleInFields_twice : (fields : List (String × Value)) →
    doubleInFields (doubleInFields fields) = doubleInFields fields
  | [] => rfl
  | (name, value) :: rest => congrArg₂ List.cons (congrArg (Prod.mk name) (doubleIn_twice value))
      (doubleInFields_twice rest)

end

/-- Doubling leaves nothing in single braces, and done again it changes nothing, in a text or in any
value. A text is made of pieces of which those that are placeholders are all that stands in single
braces, each at its place; doubling adds one brace on either side of each of them, and taking these
away gives the text back. -/
theorem doubling_settles :
    (∀ text : String, (∀ name, ¬ HoldsSingle name (double text).toList) ∧
      double (double text) = double text ∧
      ∃ pieces : List Piece, text.toList = pieces.flatMap Piece.single ∧
        (double text).toList = pieces.flatMap Piece.doubled ∧
        ∀ before name after, Stands text.toList before name after ↔ ∃ front back,
          pieces = front ++ .placeholder name :: back ∧
            before = front.flatMap Piece.single ∧ after = back.flatMap Piece.single) ∧
    ∀ value : Value, doubleIn (doubleIn value) = doubleIn value := by
  refine ⟨fun text => ⟨fun name => double_clears name text, double_twice text, ?_⟩, doubleIn_twice⟩
  obtain ⟨pieces, cut, same⟩ := scan_cuts (.outside false) text.toList
  refine ⟨pieces, (Cut.written false _ pieces cut).symm, ?_, ?_⟩
  · rw [double, String.toList_ofList]
    exact same
  · intro before name after
    rw [stands_iff]
    exact Cut.stands_iff false _ pieces cut before name after

end Keymap.Braces
