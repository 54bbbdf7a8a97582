import Keymap.Proofs.Expr.Reading

/-!
Writing an expression and reading it back gives the same expression (`parse_render`), unless an
equals sign stands alone in the text, which only a string can bring about.
-/

set_option autoImplicit false

namespace Keymap.Expr

/-- An equals sign that is no part of a comparison: `!`, `=`, `<` or `>` does not stand before it,
nor `=` or `>` after it. -/
def HasLoneEquals (text : List Char) : Prop :=
  ∃ before after, text = before ++ '=' :: after ∧
    (∀ c, before.getLast? = some c → c ∉ ['!', '=', '<', '>']) ∧
    ∀ c, after.head? = some c → c ∉ ['=', '>']

theorem assignsAfter_iff (previous : Option Char) (text : List Char) :
    assignsAfter previous text = true ↔ ∃ before after, text = before ++ '=' :: after ∧
      (∀ c, before.getLast?.or previous = some c → c ∉ ['!', '=', '<', '>']) ∧
      ∀ c, after.head? = some c → c ∉ ['=', '>'] := by
  induction text generalizing previous with
  | nil => simp [assignsAfter]
  | cons c rest ih =>
    have here : (c = '=' && !(previous.map fun p => p = '!' || p = '=' || p = '<' || p = '>').getD
          Bool.false && !(rest.head?.map fun n => n = '=' || n = '>').getD Bool.false) = true ↔
        c = '=' ∧ (∀ p, previous = some p → p ∉ ['!', '=', '<', '>']) ∧
          ∀ n, rest.head? = some n → n ∉ ['=', '>'] := by
      cases previous <;> cases rest <;> simp [and_assoc]
    have last : ∀ before : List Char,
        (c :: before).getLast?.or previous = before.getLast?.or (some c) := by
      intro before
      rw [List.getLast?_cons]
      cases before.getLast? <;> rfl
    rw [assignsAfter, Bool.or_eq_true, here, ih]
    constructor
    · rintro (⟨rfl, before, after⟩ | ⟨before, after, rfl, first, second⟩)
      · exact ⟨[], rest, rfl, before, after⟩
      · exact ⟨c :: before, after, rfl, (last before).symm ▸ first, second⟩
    · rintro ⟨before, after, same, first, second⟩
      cases before with
      | nil =>
        obtain ⟨rfl, rfl⟩ := List.cons.inj same
        exact .inl ⟨rfl, first, second⟩
      | cons head tail =>
        obtain ⟨rfl, rfl⟩ := List.cons.inj same
        exact .inr ⟨tail, after, rfl, last tail ▸ first, second⟩

theorem assigns_iff (text : List Char) : assigns text = true ↔ HasLoneEquals text := by
  rw [assigns, assignsAfter_iff]
  simp only [HasLoneEquals, Option.or_none]

/-- No numeral among words that fit has too many digits. -/
theorem not_overlong (words : List Word) (lexemes : List Lexeme) (context : Context)
    (fit : Fit context words) (spelled : List.Forall₂ Spells words lexemes) :
    overlong? lexemes = none := by
  induction spelled generalizing context with
  | nil => rfl
  | @cons word lexeme rest others spells _ ih =>
    obtain ⟨position, rfl⟩ := spells
    have later := ih _ fit.2
    unfold overlong? at later ⊢
    rw [List.findSome?_cons, later]
    cases word with
    | numeral value =>
      have small : value < Number.tenTo Number.maxDigits := by
        simpa [Word.Fits, Number.fitsDigits] using fit.1
      have short := digitChars_short value Number.maxDigits (by decide) small
      simp [Word.terminal, Word.text, Nat.not_lt.mpr short]
    | _ => rfl

/-- An expression of not too many levels is what its text is read as. -/
theorem parse_render (expr : Expr) (plain : Plain expr) (shallow : expr.depth ≤ 150)
    (alone : ¬ HasLoneEquals (render expr)) : parse (render expr) = .ok expr := by
  have fit := words_fit expr plain [] trivial
  rw [List.append_nil] at fit
  have spelled := lex_render expr plain
  have deep : ¬ maxDepth < expr.depth := by
    rw [maxDepth]
    omega
  rw [← assigns_iff] at alone
  unfold parse
  rw [if_neg alone]
  dsimp only
  rw [run_words expr plain _ spelled, not_overlong _ _ _ fit spelled]
  dsimp only
  rw [if_neg deep]

/-- A conditional whose test is one, with members, a name that is a keyword elsewhere, operators of
one level on both sides, and a string with a quote and a backslash. -/
def tangled : Expr :=
  .conditional
    (.conditional (.name "a") (.name "b") (.name "c"))
    (.unary .minus (.index
      (.member (.binary .sub (.name "x") (.binary .sub (.name "y") (.name "z"))) "true")
      (.constant (.number (.int 0)))))
    (.array [.constant (.text "q\"\\"), .binary .identical (.unary .not (.name "f")) (.name "g"),
      .array []])

theorem parse_tangled :
    render tangled = ("( a ? b : c ) ? - ( x - ( y - z ) ) . true [ 0 ] : " ++
      "[ \"q\\\"\\\\\" , ! f === g , [ ] ]").toList ∧
    parse (render tangled) = .ok tangled := by
  have letter : ∀ name : String, name ∈ ["a", "b", "c", "x", "y", "z", "f", "g", "true"] →
      IsName name.toList := by
    intro name member
    fin_cases member <;> exact ⟨_, _, rfl, by decide, List.all_eq_true.mp (by decide)⟩
  have free : ∀ name : String, name ∈ ["a", "b", "c", "x", "y", "z", "f", "g"] →
      Plain (.name name) := by
    intro name member
    refine ⟨letter name (List.mem_append_left ["true"] member), ?_⟩
    fin_cases member <;> decide
  have nought : PlainConstant (.number (.int 0)) := ⟨le_refl 0, decide_eq_true (Number.tenTo_pos _)⟩
  have plain : Plain tangled :=
    ⟨⟨free _ (by decide), free _ (by decide), free _ (by decide)⟩,
      ⟨⟨⟨free _ (by decide), free _ (by decide), free _ (by decide)⟩, letter _ (by decide)⟩, nought⟩,
      trivial, ⟨free _ (by decide), free _ (by decide)⟩, trivial, trivial⟩
  refine ⟨by decide +kernel, parse_render tangled plain (by decide +kernel) ?_⟩
  rw [← assigns_iff]
  decide +kernel

end Keymap.Expr
