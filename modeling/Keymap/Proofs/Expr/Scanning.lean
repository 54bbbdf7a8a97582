import Keymap.Proofs.Expr.Lexing
import Mathlib.Tactic.FinCases

/-!
Taking written tokens apart. A word before a blank or at the end of the text is read as itself
(`scan_word`), so that a text of words with blanks between them is read as these words, one by one
(`lex_words`).
-/

set_option autoImplicit false

namespace Keymap.Expr

/-- The text is over, or a blank follows. -/
inductive Ends : List Char → Prop
  | nothing : Ends []
  | blank (rest : List Char) : Ends (' ' :: rest)

theorem Ends.stops {holds : Char → Bool} {tail : List Char} (ends : Ends tail)
    (blank : holds ' ' = false) : ∀ c, tail.head? = some c → holds c = false := by
  cases ends with
  | nothing => exact nofun
  | blank rest =>
    rintro c ⟨⟩
    exact blank

theorem scan_name (context : Context) (letters tail : List Char) (named : IsName letters)
    (ends : Ends tail) :
    scan? context (letters ++ tail) = some (wordTerminal context letters, letters) :=
  scan_named context named (ends.stops (by decide))

def decimals : List Char := ['0', '1', '2', '3', '4', '5', '6', '7', '8', '9']

theorem decimal_of_isDigit (c : Char) (digit : c.isDigit = true) : c ∈ decimals := by
  have bounds : 48 ≤ c.toNat ∧ c.toNat ≤ 57 := by
    simpa [Char.isDigit, Char.le_def, UInt32.le_iff_toNat_le] using digit
  have same : c = Char.ofNat c.toNat := (Char.ofNat_toNat c).symm
  generalize c.toNat = code at bounds same
  subst same
  have small : ∀ code : Fin 58, 48 ≤ code.val → Char.ofNat code.val ∈ decimals := by decide
  exact small ⟨code, by omega⟩ bounds.1

theorem digitChars_decimal (value : Nat) : ∀ c ∈ Number.digitChars value, c ∈ decimals :=
  fun c member => decimal_of_isDigit c
    (Nat.isDigit_of_mem_toDigits (by omega) (by omega) member)

theorem isDigit_digitChars (value : Nat) :
    ∀ c ∈ Number.digitChars value, Text.isDigit c = true := by
  have each : ∀ c ∈ decimals, Text.isDigit c = true := List.all_eq_true.mp (by decide)
  exact fun c member => each c (digitChars_decimal value c member)

theorem digitChars_cons (value : Nat) :
    ∃ first rest, Number.digitChars value = first :: rest ∧ first ∈ decimals := by
  obtain ⟨first, rest, same⟩ := List.exists_cons_of_ne_nil (Nat.toDigits_ne_nil (b := 10) (n := value))
  refine ⟨first, rest, same, digitChars_decimal value first ?_⟩
  rw [Number.digitChars, same]
  exact List.mem_cons_self

theorem digitChars_short (value digits : Nat) (positive : 0 < digits)
    (small : value < Number.tenTo digits) : (Number.digitChars value).length ≤ digits :=
  (Nat.length_toDigits_le_iff (by omega) positive).mpr small

theorem numeralPart_digits (value : Nat) (tail : List Char) (ends : Ends tail) :
    numeralPart (Number.digitChars value ++ tail) = Number.digitChars value := by
  have noPoint : ∀ rest, tail ≠ '.' :: rest := by
    rintro rest rfl
    cases ends
  have noPower : exponentPart tail = [] := by
    cases ends with
    | nothing => rfl
    | blank rest => exact exponentPart_none rest (by decide)
  obtain ⟨first, rest, same, _⟩ := digitChars_cons value
  rw [numeralPart_whole (isDigit_digitChars value) (ends.stops (by decide)) noPoint,
    if_neg (same ▸ List.cons_ne_nil first rest), noPower, List.append_nil]

theorem scan_numeral (context : Context) (value : Nat) (tail : List Char) (ends : Ends tail) :
    scan? context (Number.digitChars value ++ tail) =
      some (.numeral, Number.digitChars value) := by
  have part := numeralPart_digits value tail ends
  obtain ⟨first, rest, same, decimal⟩ := digitChars_cons value
  have apart : ∀ c ∈ decimals, startsName c = false ∧ c ≠ '.' ∧
      ∀ after, string? (c :: after) = none := by
    intro c member
    fin_cases member <;> exact ⟨rfl, by decide, fun _ => rfl⟩
  obtain ⟨noName, noPoint, noString⟩ := apart first decimal
  rw [same, List.cons_append] at part ⊢
  rw [scan?]
  dsimp only
  rw [noName, noString, part]
  simp [noPoint]

theorem quotable_escaped (content : List Char) : IsQuotable '"' (escaped content) := by
  induction content with
  | nil => exact .nothing
  | cons c rest ih =>
    unfold escaped
    split
    · next special =>
      have inLine : c ≠ '\n' := by
        rcases special with rfl | rfl <;> decide
      exact .escaped inLine ih
    · next plain =>
      rw [not_or] at plain
      exact .plain plain.2 plain.1 ih

theorem scan_string (context : Context) (content tail : List Char) :
    scan? context ('"' :: escaped content ++ ['"'] ++ tail) =
      some (.string, '"' :: escaped content ++ ['"']) :=
  scan_of_string (.quoted (by decide) (quotable_escaped content)) (List.prefix_append _ tail)

theorem scan_mark (context : Context) (symbol : Symbol) (tail : List Char)
    (fits : (Word.mark symbol).Fits context) (ends : Ends tail) :
    scan? context (symbol.text ++ tail) = some (.symbol symbol, symbol.text) := by
  cases ends <;> cases symbol <;> cases context
  all_goals first | rfl | exact absurd rfl (fits rfl).1 | exact absurd rfl (fits rfl).2

theorem scan_keyword (context : Context) (known : Keyword) (tail : List Char)
    (fits : (Word.keyword known).Fits context) (ends : Ends tail) :
    scan? context (known.text ++ tail) = some (.keyword known, known.text) := by
  rw [scan_name context known.text tail (keyword_isName known) ends, wordTerminal, if_neg fits,
    (keyword_iff _ known).mpr rfl]

/-- A word that fits after the token before it is read as itself. -/
theorem scan_word (context : Context) (word : Word) (tail : List Char) (fits : word.Fits context)
    (ends : Ends tail) : scan? context (word.text ++ tail) = some (word.terminal, word.text) := by
  cases word with
  | mark symbol => exact scan_mark context symbol tail fits ends
  | keyword known => exact scan_keyword context known tail fits ends
  | name text =>
    have plain : wordTerminal context text.toList = .name := by
      rcases fits.2 with member | unknown
      · rw [wordTerminal, if_pos member]
      · rw [wordTerminal, unknown]
        split <;> rfl
    rw [Word.text, scan_name context text.toList tail fits.1 ends, plain, Word.terminal]
  | numeral value => exact scan_numeral context value tail ends
  | string content => exact scan_string context content.toList tail

theorem word_starts (context : Context) (word : Word) (fits : word.Fits context) :
    ∃ first rest, word.text = first :: rest ∧ isSpace first = false := by
  cases word with
  | mark symbol => cases symbol <;> exact ⟨_, _, rfl, by decide⟩
  | keyword known => cases known <;> exact ⟨_, _, rfl, by decide⟩
  | name text =>
    obtain ⟨first, rest, same, starts⟩ := fits.1
    refine ⟨first, rest, same, ?_⟩
    by_contra space
    rw [Bool.not_eq_false, isSpace] at space
    simp only [Bool.or_eq_true, decide_eq_true_eq] at space
    rcases space with (((rfl | rfl) | rfl) | rfl) | rfl <;> exact absurd starts.1 (by decide)
  | numeral value =>
    obtain ⟨first, rest, same, decimal⟩ := digitChars_cons value
    have each : ∀ c ∈ decimals, isSpace c = false := by
      intro c member
      fin_cases member <;> rfl
    exact ⟨first, rest, same, each first decimal⟩
  | string content => exact ⟨_, _, rfl, by decide⟩

theorem lexFrom_skip (taken tail : List Char) (context : Context) (position : Position) :
    ∃ later, lexFrom taken.length context position (taken ++ tail) =
      lexFrom 0 context later tail := by
  induction taken generalizing position with
  | nil => exact ⟨position, rfl⟩
  | cons c rest ih => exact ih (position.after c)

theorem lexFrom_word (context : Context) (position : Position) (word : Word) (tail : List Char)
    (fits : word.Fits context) (ends : Ends tail) :
    ∃ later, lexFrom 0 context position (word.text ++ tail) =
      .token ⟨word.terminal, word.text, position⟩ ::
        lexFrom 0 word.terminal.next later tail := by
  have scanned := scan_word context word tail fits ends
  obtain ⟨first, rest, same, shown⟩ := word_starts context word fits
  obtain ⟨later, skipped⟩ :=
    lexFrom_skip rest tail word.terminal.next (position.after first)
  refine ⟨later, ?_⟩
  rw [same, List.cons_append] at scanned ⊢
  rw [lexFrom, shown, scanned, ← skipped]
  rfl

/-- A token that stands for a word, wherever it stands. -/
def Spells (word : Word) (lexeme : Lexeme) : Prop :=
  ∃ position, lexeme = .token ⟨word.terminal, word.text, position⟩

theorem lexFrom_words (words : List Word) (context : Context) (position : Position)
    (fit : Fit context words) :
    List.Forall₂ Spells words
      (lexFrom 0 context position ([' '].intercalate (words.map Word.text))) := by
  induction words generalizing context position with
  | nil => exact .nil
  | cons word rest ih =>
    cases rest with
    | nil =>
      obtain ⟨later, read⟩ := lexFrom_word context position word [] fit.1 .nothing
      rw [List.append_nil] at read
      rw [List.map_cons, List.map_nil, List.intercalate_singleton, read]
      exact .cons ⟨position, rfl⟩ .nil
    | cons next others =>
      obtain ⟨later, read⟩ := lexFrom_word context position word
        (' ' :: [' '].intercalate ((next :: others).map Word.text)) fit.1 (.blank _)
      rw [List.map_cons, List.map_cons, List.intercalate_cons_cons, List.append_assoc,
        List.singleton_append, ← List.map_cons, read]
      exact .cons ⟨position, rfl⟩ (ih word.terminal.next (later.after ' ') fit.2)

theorem lex_render (expr : Expr) (plain : Plain expr) :
    List.Forall₂ Spells (words expr) (lex (render expr)) := by
  have fit := words_fit expr plain [] trivial
  rw [List.append_nil] at fit
  exact lexFrom_words _ _ _ fit

end Keymap.Expr
