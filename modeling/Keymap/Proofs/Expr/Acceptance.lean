import Keymap.Proofs.Expr.RoundTrip
import Keymap.Proofs.Expr.Tokens

/-!
What is accepted as an expression: the texts that the grammar derives, unless an equals sign stands
alone in one of their strings (`parse_iff_derived`). Outside of strings no equals sign of such a
text stands alone (`assigns_of_lexes`).
-/

set_option autoImplicit false

namespace Keymap.Expr

section Equals

theorem assignsAfter_append {front : List Char} {last : Char} (back : List Char)
    (ends : front.getLast? = some last) (other : last ≠ '=') (previous : Option Char) :
    assignsAfter previous (front ++ back) =
      (assignsAfter previous front || assignsAfter (some last) back) := by
  induction front generalizing previous with
  | nil => cases ends
  | cons c rest ih =>
    cases rest with
    | nil =>
      obtain rfl : c = last := by simpa using ends
      simp [assignsAfter, other]
    | cons d more =>
      have later := ih (by simpa using ends) (some c)
      show (_ || assignsAfter (some c) (d :: more ++ back)) =
        ((_ || assignsAfter (some c) (d :: more)) || assignsAfter (some last) back)
      rw [later, Bool.or_assoc]
      rfl

theorem assignsAfter_free {part : List Char} (free : '=' ∉ part) (previous : Option Char) :
    assignsAfter previous part = false := by
  induction part generalizing previous with
  | nil => rfl
  | cons c rest ih =>
    rw [List.mem_cons, not_or] at free
    rw [assignsAfter, ih free.2]
    simp [Ne.symm free.1]

/-- No equals sign of a symbol stands alone, whatever stands around the symbol. -/
theorem assignsAfter_symbol (symbol : Symbol) (back : List Char) (previous : Option Char) :
    ∃ last, assignsAfter previous (symbol.text ++ back) = assignsAfter (some last) back := by
  cases symbol with
  | identical | distinct | equal | unequal | atMost | atLeast =>
    exact ⟨'=', by simp [Symbol.text, assignsAfter]⟩
  | _ => exact ⟨_, by simp [Symbol.text, assignsAfter]; rfl⟩

/-- Only in a string can an equals sign stand alone. -/
theorem assigns_of_lexes {context : Context} {text : List Char} {pieces : List Piece}
    (lexes : Lexes context text pieces) (previous : Option Char) :
    assignsAfter previous text = true ↔
      ∃ piece ∈ pieces, piece.terminal = .string ∧ assigns piece.text = true := by
  induction lexes generalizing previous with
  | nothing => simp [assignsAfter]
  | @blank _ c rest pieces space _ ih =>
    have other : c ≠ '=' := by
      rintro rfl
      exact absurd space (by decide)
    rw [← ih (some c), assignsAfter]
    simp [other]
  | @piece context piece rest pieces leads _ ih =>
    obtain ⟨terminal, part⟩ := piece
    have fits := leads.fits
    dsimp only at fits ih ⊢
    by_cases marks : ∃ symbol, terminal = .symbol symbol
    · obtain ⟨symbol, rfl⟩ := marks
      obtain rfl : part = symbol.text := fits
      obtain ⟨last, same⟩ := assignsAfter_symbol symbol rest previous
      rw [same, ih]
      simp
    · by_cases string : terminal = .string
      · subst string
        obtain ⟨quote, inner, written, quotes⟩ := string_ends fits
        have other : quote ≠ '=' := by
          rintro rfl
          exact absurd quotes (by decide)
        have ends : part.getLast? = some quote := by
          rw [written, ← List.cons_append, List.getLast?_concat]
        have own : assignsAfter previous part = assigns part := by
          rw [written, assigns, assignsAfter, assignsAfter]
          simp [other]
        rw [assignsAfter_append rest ends other, own, Bool.or_eq_true, ih]
        simp
      · have free : '=' ∉ part := fun member =>
          (symbol_or_string fits member (by decide) (by decide) (by decide)).elim marks string
        obtain ⟨c, more, written, _⟩ := matches_head fits
        have ends := List.getLast?_eq_some_getLast (written ▸ List.cons_ne_nil c more : part ≠ [])
        have other : part.getLast (written ▸ List.cons_ne_nil c more) ≠ '=' :=
          fun same => free (same ▸ List.getLast_mem _)
        rw [assignsAfter_append rest ends other, assignsAfter_free free, Bool.false_or, ih]
        simp [string]

end Equals

/-- An integer of more digits than are read. -/
def Piece.Overlong (piece : Piece) : Prop :=
  piece.terminal = .numeral ∧ (∀ c ∈ piece.text, Text.isDigit c = true) ∧
    Number.maxDigits < piece.text.length

theorem overlong_none_iff {pieces : List Piece} {lexemes : List Lexeme}
    (shown : List.Forall₂ Shows pieces lexemes) :
    overlong? lexemes = none ↔ ∀ piece ∈ pieces, ¬ piece.Overlong := by
  induction shown with
  | nil => exact iff_of_true rfl nofun
  | @cons piece lexeme _ _ shows _ ih =>
    obtain ⟨position, rfl⟩ := shows
    unfold overlong? at ih ⊢
    rw [List.findSome?_cons, List.forall_mem_cons, ← ih]
    have own : (decide (piece.terminal = .numeral) && piece.text.all Text.isDigit &&
        decide (Number.maxDigits < piece.text.length)) = true ↔ piece.Overlong := by
      simp [Piece.Overlong, and_assoc]
    by_cases long : piece.Overlong
    · simp [own.mpr long, long]
    · simp [Bool.eq_false_iff.mpr (mt own.mp long), long]

/-- A text is accepted if the grammar derives it, no equals sign stands alone in a string, and
neither its tree nor an integer is too large. -/
theorem parse_ok_iff (text : List Char) (expr : Expr) : parse text = .ok expr ↔
    ∃ pieces, Lexes .operand text pieces ∧ Derives 0 pieces expr ∧
      (∀ piece ∈ pieces, piece.terminal = .string → ¬ HasLoneEquals piece.text) ∧
      expr.depth ≤ maxDepth ∧ ∀ piece ∈ pieces, ¬ piece.Overlong := by
  have lone {pieces : List Piece} (lexes : Lexes .operand text pieces) :
      assigns text = false ↔
        ∀ piece ∈ pieces, piece.terminal = .string → ¬ HasLoneEquals piece.text := by
    rw [← Bool.not_eq_true, assigns, assigns_of_lexes lexes none]
    simp only [assigns_iff, not_exists, not_and]
  unfold parse
  constructor
  · intro accepted
    split at accepted
    · cases accepted
    · next alone =>
      dsimp only at accepted
      split at accepted
      · cases accepted
      · next read =>
        split at accepted
        · cases accepted
        · next shallow =>
          split at accepted
          · cases accepted
          · next short =>
            cases accepted
            obtain ⟨pieces, lexes, derives⟩ := (run_lex_iff text .start expr).mp read
            exact ⟨pieces, lexes, derives, (lone lexes).mp (Bool.not_eq_true _ ▸ alone),
              Nat.not_lt.mp shallow, (overlong_none_iff (lexes.shown .start)).mp short⟩
  · rintro ⟨pieces, lexes, derives, alone, shallow, short⟩
    have read := (run_lex_iff text .start expr).mpr ⟨pieces, lexes, derives⟩
    have noneLong : overlong? (lex text) = none :=
      (overlong_none_iff (lexes.shown .start)).mpr short
    rw [(lone lexes).mpr alone, if_neg Bool.false_ne_true]
    dsimp only
    rw [read]
    dsimp only
    rw [if_neg (Nat.not_lt.mpr shallow), noneLong]

/-- The run over the tokens never ends for their size. -/
theorem run_not_overlong (lexemes : List Lexeme) (last : Position) (stage : Stage) (digits : Nat) :
    run last stage lexemes ≠ .error (.overlong digits) := by
  induction lexemes generalizing last stage with
  | nil =>
    rw [run]
    split
    · intro same
      cases same
    · intro same
      cases same
  | cons lexeme rest ih =>
    cases lexeme with
    | stray c position =>
      intro same
      cases same
    | token token =>
      rw [run]
      split
      · exact ih _ _
      · intro same
        cases same

/-- A text of moderate size is read as an expression exactly if the grammar derives it and no
equals sign stands alone in one of its strings, and is rejected as an expression otherwise. -/
theorem parse_iff_derived (text : List Char)
    (moderate : ∀ pieces expr, Lexes .operand text pieces → Derives 0 pieces expr →
      expr.depth ≤ 150 ∧ ∀ piece ∈ pieces, ¬ piece.Overlong) :
    (∀ expr, parse text = .ok expr ↔ ∃ pieces, Lexes .operand text pieces ∧
      Derives 0 pieces expr ∧
      ∀ piece ∈ pieces, piece.terminal = .string → ¬ HasLoneEquals piece.text) ∧
    ((∀ expr, parse text ≠ .ok expr) → ∃ rejection, parse text = .error rejection ∧
      ∀ digits, rejection ≠ .overlong digits) := by
  constructor
  · intro expr
    rw [parse_ok_iff]
    refine exists_congr fun pieces => and_congr_right fun lexes => and_congr_right fun derives => ?_
    obtain ⟨shallow, short⟩ := moderate pieces expr lexes derives
    exact ⟨fun all => all.1, fun alone => ⟨alone, Nat.le_trans shallow (by decide), short⟩⟩
  · intro refused
    cases outcome : parse text with
    | ok expr => exact absurd outcome (refused expr)
    | error rejection =>
      refine ⟨rejection, rfl, ?_⟩
      rintro digits rfl
      unfold parse at outcome
      split at outcome
      · cases outcome
      · dsimp only at outcome
        split at outcome
        · next read =>
          cases outcome
          exact run_not_overlong _ _ _ digits read
        · next expr read =>
          split at outcome
          · cases outcome
          · split at outcome
            · next long =>
              obtain ⟨pieces, lexes, derives⟩ := (run_lex_iff text .start expr).mp read
              have short := (moderate pieces expr lexes derives).2
              rw [lex, (overlong_none_iff (lexes.shown .start)).mpr short] at long
              cases long
            · cases outcome

/-- A text with all kinds of tokens but doubles. -/
def crowded : List Char := "a!=='x==y'?-b:[1 ,c.true]".toList

def crowdedTree : Expr :=
  .conditional (.binary .distinct (.name "a") (.constant (.text "x==y")))
    (.unary .minus (.name "b"))
    (.array [.constant (.number (.int 1)), .member (.name "c") "true"])

theorem crowded_accepted : parse crowded = .ok crowdedTree ∧
    ∃ pieces, Lexes .operand crowded pieces ∧ Derives 0 pieces crowdedTree ∧
      ∀ piece ∈ pieces, piece.terminal = .string → ¬ HasLoneEquals piece.text := by
  have accepted : parse crowded = .ok crowdedTree := rfl
  obtain ⟨pieces, lexes, derives, _, _, short⟩ := (parse_ok_iff _ _).mp accepted
  have moderate : ∀ others expr, Lexes .operand crowded others → Derives 0 others expr →
      expr.depth ≤ 150 ∧ ∀ piece ∈ others, ¬ piece.Overlong := by
    intro others expr lexesOther derivesOther
    obtain rfl := lexes_unique lexes lexesOther
    obtain rfl := derives_unique derives derivesOther
    exact ⟨by decide, short⟩
  exact ⟨accepted, ((parse_iff_derived crowded moderate).1 crowdedTree).mp accepted⟩

/-- A comparison with a string in which an equals sign stands alone. -/
def quotedEquals : List Char := "a == 'b=c'".toList

/-- The grammar derives a text that is refused. -/
theorem quotedEquals_refused :
    (∃ pieces, Lexes .operand quotedEquals pieces ∧
      Derives 0 pieces (.binary .equal (.name "a") (.constant (.text "b=c"))) ∧
      ∀ piece ∈ pieces, ¬ piece.Overlong) ∧
    parse quotedEquals = .error .assignment := by
  refine ⟨?_, rfl⟩
  obtain ⟨pieces, lexes, derives⟩ := (run_lex_iff quotedEquals .start
    (.binary .equal (.name "a") (.constant (.text "b=c")))).mp rfl
  exact ⟨pieces, lexes, derives, (overlong_none_iff (lexes.shown .start)).mp rfl⟩

end Keymap.Expr
