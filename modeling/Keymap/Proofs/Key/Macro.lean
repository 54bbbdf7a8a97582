import Keymap.Key.Macro
import Mathlib.Data.List.Infix

/-!
Reading a key macro back. The macro ends at the first two closing braces after its opening, so a
pattern is read as it was written exactly if it holds no two closing braces in a row and ends in
none (`expand_written`).
-/

set_option autoImplicit false

namespace Keymap.Key

/-- A macro as it is written in a text. -/
def Macro.written (found : Macro) : List Char :=
  found.before ++ (opening ++ ':' :: ' ' :: (found.pattern ++ (closing ++ found.after)))

section Closing

/-- Whether the first two closing braces after a text are those that come right after it. -/
def Open (text : List Char) : Prop := ¬ closing <:+: text ∧ text.getLast? ≠ some '}'

variable (rest : List Char)

theorem closing_prefix_iff (c : Char) (text : List Char) :
    closing <+: c :: text ↔ c = '}' ∧ text.head? = some '}' := by
  rw [closing, List.cons_prefix_cons]
  refine and_congr eq_comm ?_
  cases text with
  | nil => simp
  | cons d others => simp [List.cons_prefix_cons, @eq_comm _ d]

theorem closing_isPrefixOf_iff (c : Char) (text : List Char) :
    closing.isPrefixOf (c :: (text ++ (closing ++ rest))) = true ↔
      c = '}' ∧ (text = [] ∨ text.head? = some '}') := by
  rw [List.isPrefixOf_iff_prefix, closing_prefix_iff]
  cases text <;> simp [closing]

theorem open_cons_iff (c : Char) (text : List Char) :
    Open (c :: text) ↔ ¬ (c = '}' ∧ (text = [] ∨ text.head? = some '}')) ∧ Open text := by
  unfold Open
  rw [List.infix_cons_iff, closing_prefix_iff]
  cases text with
  | nil => simp [closing]
  | cons d others =>
    rw [List.getLast?_cons_cons]
    simp [and_assoc, not_or]

/-- What comes before the first two closing braces is the text itself if it is open, and else a
shorter part of it. -/
theorem cutAt_closing (text : List Char) :
    ∃ front after, Text.cutAt closing (text ++ (closing ++ rest)) = some (front, after) ∧
      front <+: text ∧ ((front, after) = (text, rest) ↔ Open text) := by
  induction text with
  | nil => exact ⟨[], rest, rfl, List.nil_prefix, iff_of_true rfl ⟨by decide, by decide⟩⟩
  | cons c others ih =>
    obtain ⟨front, after, cut, within, whole⟩ := ih
    rw [List.cons_append, Text.cutAt, open_cons_iff]
    by_cases closes : c = '}' ∧ (others = [] ∨ others.head? = some '}')
    · rw [if_pos ((closing_isPrefixOf_iff rest c others).mpr closes)]
      exact ⟨[], _, rfl, List.nil_prefix, by simp [closes]⟩
    · rw [if_neg (mt (closing_isPrefixOf_iff rest c others).mp closes), cut]
      refine ⟨c :: front, after, rfl, List.prefix_cons_inj c |>.mpr within, ?_⟩
      rw [← whole]
      simp [closes]

end Closing

section Opening

/-- An opening does not start in a text that holds none and reach into the one after the text. -/
theorem opening_first (c : Char) (text tail : List Char) (unopened : ¬ opening <:+: c :: text) :
    ¬ opening <+: c :: (text ++ (opening ++ tail)) := by
  intro starts
  rcases List.prefix_or_prefix_of_prefix starts (List.prefix_append (c :: text) (opening ++ tail))
    with within | reaches
  · exact unopened within.isInfix
  · have among := (List.mem_inits (c :: text) opening).mpr reaches
    simp only [opening, List.inits, List.map_cons, List.map_nil, List.mem_cons, List.not_mem_nil,
      or_false, reduceCtorEq, false_or] at among
    rcases among with same | same | same | same | same <;> cases same <;>
      simp [opening, List.cons_prefix_cons] at starts unopened

/-- The macro of a text is found where its opening first stands. -/
theorem macro?_first (before tail pattern after : List Char) (unopened : ¬ opening <:+: before)
    (found : macroTail? tail = some (pattern, after)) :
    macro? (before ++ (opening ++ tail)) = some ⟨before, pattern, after⟩ := by
  induction before with
  | nil =>
    rw [List.nil_append]
    simp [opening, macro?, found]
  | cons c rest ih =>
    have later : ¬ opening <:+: rest := fun within =>
      unopened (within.trans (List.suffix_cons c rest).isInfix)
    have here : opening.isPrefixOf (c :: (rest ++ (opening ++ tail))) = false := by
      rw [Bool.eq_false_iff, Ne, List.isPrefixOf_iff_prefix]
      exact opening_first c rest tail unopened
    rw [List.cons_append, macro?, here, ih later]
    rfl

end Opening

theorem trimLeft_of_trimmed (text rest : List Char) (nonempty : text ≠ [])
    (trimmed : Text.trim text = text) : Text.trimLeft (text ++ rest) = text ++ rest := by
  cases text with
  | nil => exact absurd rfl nonempty
  | cons c others =>
    cases blank : Text.isBlank c with
    | false => simp [Text.trimLeft, blank]
    | true =>
      have shorter : (Text.trim (c :: others)).length ≤ others.length := by
        rw [Text.trim, Text.trimLeft, Text.trimLeft, List.dropWhile_cons_of_pos blank,
          List.length_reverse]
        refine (List.dropWhile_sublist _).length_le.trans ?_
        rw [List.length_reverse]
        exact (List.dropWhile_sublist _).length_le
      rw [trimmed, List.length_cons] at shorter
      omega

section Written

variable (found : Macro) (alone : ¬ opening <:+: found.before) (nonempty : found.pattern ≠ [])
  (trimmed : Text.trim found.pattern = found.pattern) (oneLine : '\n' ∉ found.pattern)

include alone nonempty trimmed oneLine

/-- A macro is read back with its pattern exactly if the pattern is open. -/
theorem macro?_written_iff : macro? found.written = .some found ↔ Open found.pattern := by
  obtain ⟨front, after, cut, within, whole⟩ := cutAt_closing found.after found.pattern
  have unbroken : front.contains '\n' = false := by
    simpa using fun broken => oneLine (within.subset broken)
  have tail : macroTail? (':' :: ' ' :: (found.pattern ++ (closing ++ found.after))) =
      .some (front, after) := by
    have skipped : Text.trimLeft (' ' :: (found.pattern ++ (closing ++ found.after))) =
        found.pattern ++ (closing ++ found.after) :=
      trimLeft_of_trimmed found.pattern (closing ++ found.after) nonempty trimmed
    simp only [macroTail?, skipped, cut, Option.bind_eq_bind, Option.bind_some, unbroken]
    rfl
  rw [Macro.written, macro?_first _ _ front after alone tail, ← whole]
  cases found
  simp

end Written

/-- A macro is read back as it is written exactly if its pattern holds no two closing braces in a
row and ends in none, and then it stands for one text per key that the pattern takes. -/
theorem expand_written (found : Macro) (compiled : Pattern.Compiled)
    (alone : ¬ opening <:+: found.before) (nonempty : found.pattern ≠ [])
    (trimmed : Text.trim found.pattern = found.pattern) (oneLine : '\n' ∉ found.pattern)
    (reads : Pattern.read patternFlags found.pattern = .ok compiled) :
    (macro? found.written = .some found ↔
      ¬ closing <:+: found.pattern ∧ found.pattern.getLast? ≠ .some '}') ∧
    (¬ closing <:+: found.pattern → found.pattern.getLast? ≠ .some '}' →
      expand (String.ofList found.written) =
        .ok ((catalog.filter compiled.matches).map found.fill)) := by
  have back := macro?_written_iff found alone nonempty trimmed oneLine
  refine ⟨back, fun apart last => ?_⟩
  have keys : keysOf found.pattern = .ok (catalog.filter compiled.matches) := by
    rw [keysOf, if_neg (by simpa using nonempty), trimmed, reads]
    rfl
  simp only [expand, String.toList_ofList, back.mpr ⟨apart, last⟩, keys]

def digitMacro : Macro := ⟨"ctrl+".toList, "[0-9]".toList, " x".toList⟩

theorem digit_texts : ∃ compiled, Pattern.read patternFlags "[0-9]".toList = .ok compiled ∧
    macro? "ctrl+\x7b\x7bkey: [0-9]\x7d\x7d x".toList = some digitMacro ∧
    expand "ctrl+\x7b\x7bkey: [0-9]\x7d\x7d x" =
      .ok ((catalog.filter compiled.matches).map digitMacro.fill) ∧
    compiled.matches "1" = true ∧ digitMacro.fill "1" = "ctrl+1 x" := by
  have spelled : String.ofList digitMacro.written = "ctrl+\x7b\x7bkey: [0-9]\x7d\x7d x" := by
    decide +kernel
  have taken : (Pattern.read patternFlags digitMacro.pattern).toOption.map
      (fun compiled => compiled.matches "1") = some true := by decide +kernel
  cases reads : Pattern.read patternFlags digitMacro.pattern with
  | error fault =>
    rw [reads] at taken
    cases taken
  | ok compiled =>
    rw [reads] at taken
    have outcome := expand_written digitMacro compiled (by decide) (by decide) (by decide)
      (by decide) reads
    rw [← spelled]
    exact ⟨compiled, reads, by rw [String.toList_ofList, outcome.1]; decide,
      outcome.2 (by decide) (by decide), Option.some.inj taken, by decide +kernel⟩

def rangedMacro : Macro := ⟨[], "f[0-9]\x7b1,2\x7d".toList, []⟩

/-- What the macro with a bound is read as. -/
def rangedReading : Macro := ⟨[], "f[0-9]\x7b1,2".toList, ['}']⟩

/-- A pattern that ends in a bound loses its last brace to the text after the macro. -/
theorem bound_cut_off : ¬ ∀ (found : Macro) (compiled : Pattern.Compiled),
    ¬ opening <:+: found.before → found.pattern ≠ [] →
    Text.trim found.pattern = found.pattern → '\n' ∉ found.pattern →
    Pattern.read patternFlags found.pattern = .ok compiled →
      expand (String.ofList found.written) =
        .ok ((catalog.filter compiled.matches).map found.fill) := by
  intro always
  have taken : (Pattern.read patternFlags rangedMacro.pattern).toOption.map
      (fun compiled => compiled.matches "f1") = some true := by decide +kernel
  cases reads : Pattern.read patternFlags rangedMacro.pattern with
  | error fault =>
    rw [reads] at taken
    cases taken
  | ok compiled =>
    rw [reads] at taken
    have first : "f1" ∈ catalog.filter compiled.matches :=
      List.mem_filter.mpr ⟨by decide +kernel, Option.some.inj taken⟩
    have expands := always rangedMacro compiled (by decide) (by decide) (by decide) (by decide)
      reads
    have reading : macro? rangedMacro.written = some rangedReading := by decide
    rw [expand, String.toList_ofList, reading] at expands
    dsimp only at expands
    split at expands
    · next keys _ =>
      have among : rangedMacro.fill "f1" ∈ keys.map rangedReading.fill := by
        rw [Except.ok.inj expands]
        exact List.mem_map_of_mem first
      obtain ⟨key, _, same⟩ := List.mem_map.mp among
      have ends := congrArg (fun text => text.toList.getLast?) same
      simp [Macro.fill, rangedReading, rangedMacro] at ends
    · cases expands

end Keymap.Key
