import Keymap.Binding.Concrete
import Keymap.Expr.Eval
import Keymap.Proofs.Expr.Acceptance

/-!
All guards at once. A text that is an expression keeps its tokens when a closing parenthesis comes
after it (`Leads.closed`), so guards in parentheses are read one by one, whatever they hold
(`conjuncts_read`), and the conjunction holds where all of them do (`conjunction_holds_iff`).
-/

set_option autoImplicit false

namespace Keymap.Expr

section Seams

variable {context : Context} {text : List Char} {pieces : List Piece}

/-- A closing parenthesis is in no token but strings and itself. -/
theorem parenthesis_free {terminal : Terminal} {part : List Char} (fits : terminal.Matches part)
    (member : ')' ∈ part) : terminal = .symbol .rightParen ∨ terminal = .string := by
  rcases symbol_or_string fits member (by decide) (by decide) (by decide) with ⟨mark, rfl⟩ | rfl
  · obtain rfl : part = mark.text := fits
    cases mark <;> first | exact .inl rfl | exact absurd member (by decide)
  · exact .inr rfl

/-- A token does not go on in a closing parenthesis behind the text. -/
theorem Leads.closed {piece : Piece} {rest : List Char} (leads : Leads context piece rest)
    (more : List Char) : Leads context piece (rest ++ ')' :: more) := by
  refine ⟨leads.due, leads.fits, ?_, leads.unreserved⟩
  intro terminal own due fits starts
  by_cases within : own <+: piece.text ++ rest
  · exact leads.longest terminal own due fits within
  -- A longer token holds the parenthesis, and starts where this one does.
  obtain ⟨c, letters, written, _⟩ := matches_head leads.fits
  obtain ⟨inside, part⟩ : ')' ∈ own ∧ piece.text <+: own := by
    obtain ⟨tail, same⟩ := starts
    rw [← List.append_assoc, List.append_eq_append_iff] at same
    rcases same with ⟨others, same, _⟩ | ⟨others, same, closing⟩
    · exact absurd ⟨others, same.symm⟩ within
    · cases others with
      | nil => exact absurd ⟨[], by rw [same, List.append_nil, List.append_nil]⟩ within
      | cons d others =>
        obtain ⟨rfl, _⟩ := List.cons.inj closing
        exact ⟨by simp [same], by rw [same, List.append_assoc]; exact List.prefix_append _ _⟩
  rcases parenthesis_free fits inside with rfl | rfl
  · obtain rfl : own = [')'] := fits
    rw [written]
    exact Nat.succ_le_succ (Nat.zero_le _)
  · -- Two strings that start at one place are the same.
    obtain ⟨beyond, same⟩ := part
    have fitsPiece := leads.fits
    have string : piece.terminal = .string := by
      rw [written] at fitsPiece same
      rw [← same, List.cons_append] at fits
      exact string_of_kind ((kind_of_token leads.due fitsPiece).symm.trans (kind_of_token due fits))
    rw [string] at fitsPiece
    have alone := string_of_isString fits []
    rw [List.append_nil, ← same, string_of_isString fitsPiece beyond] at alone
    rw [← same, ← Option.some.inj alone]

/-- What is due after tokens. -/
def contextAfter (context : Context) (pieces : List Piece) : Context :=
  pieces.foldl (fun _ piece => piece.terminal.next) context

theorem contextAfter_concat (context : Context) (front : List Piece) (last : Piece) :
    contextAfter context (front ++ [last]) = last.terminal.next := by
  rw [contextAfter, List.foldl_concat]

theorem contextAfter_append (context : Context) (front back : List Piece) :
    contextAfter context (front ++ back) = contextAfter (contextAfter context front) back :=
  List.foldl_append

/-- An operator is due after an expression. -/
theorem Derives.complete : ∀ {level : Nat} {pieces : List Piece} {expr : Expr},
    Derives level pieces expr → ∀ context, contextAfter context pieces = .operator
  | _, _, _, .tighter derives, context => derives.complete context
  | _, _, _, .conditional _ _ derivesFalse, context => by
    rw [contextAfter_append, contextAfter, List.foldl_cons, ← contextAfter, contextAfter_append]
    exact derivesFalse.complete _
  | _, _, _, .binary op _ derivesRight, context => by
    rw [contextAfter_append]
    exact derivesRight.complete _
  | _, _, _, .unary op derives, context => derives.complete _
  | _, _, _, .member _ _, context => by
    rw [contextAfter_append]
    rfl
  | _, _, _, .index _ _, context => by
    rw [← List.cons_append, ← List.append_assoc, contextAfter_concat]
    rfl
  | _, _, _, .array _, context => by
    rw [← List.cons_append, contextAfter_concat]
    rfl
  | _, _, _, .group _, context => by
    rw [← List.cons_append, contextAfter_concat]
    rfl
  | _, _, _, .numeral _, _ => rfl
  | _, _, _, .string _, _ => rfl
  | _, _, _, .keyword _, _ => rfl
  | _, _, _, .name _, _ => rfl

/-- The tokens of a text stay when a closing parenthesis comes after it. -/
theorem Lexes.closed (lexes : Lexes context text pieces) {more : List Char} {others : List Piece}
    (behind : Lexes (contextAfter context pieces) (')' :: more) others) :
    Lexes context (text ++ ')' :: more) (pieces ++ others) := by
  induction lexes with
  | nothing => exact behind
  | blank space _ ih => exact .blank space (ih behind)
  | piece leads _ ih =>
    rw [List.append_assoc]
    exact .piece (leads.closed more) (ih behind)

end Seams

section Groups

def bracketed (text : List Char) : List Char := '(' :: (text ++ [')'])

def grouped (pieces : List Piece) : List Piece :=
  .mark .leftParen :: (pieces ++ [.mark .rightParen])

/-- An expression in parentheses, with more text behind. -/
theorem lexes_bracketed {text rest : List Char} {pieces others : List Piece} {expr : Expr}
    (lexes : Lexes .operand text pieces) (derives : Derives 0 pieces expr)
    (behind : Lexes .operator rest others) :
    Lexes .operand (bracketed text ++ rest) (grouped pieces ++ others) := by
  have opens : Leads .operand (.mark .leftParen) (text ++ ')' :: rest) :=
    (scan_iff_leads _).mpr ⟨rfl, by simp [Terminal.Due]⟩
  have closes : Leads .operator (.mark .rightParen) rest :=
    (scan_iff_leads _).mpr ⟨rfl, due_operator (by decide)⟩
  have closed : Lexes .operand (text ++ ')' :: rest) (pieces ++ .mark .rightParen :: others) := by
    refine lexes.closed ?_
    rw [derives.complete]
    exact .piece closes behind
  have whole := Lexes.piece opens closed
  rw [bracketed, grouped, List.cons_append, List.cons_append, List.append_assoc, List.append_assoc]
  exact whole

/-- What stands before a further conjunct, and the conjunct. -/
def conjunct (text : List Char) : List Char := ' ' :: '&' :: '&' :: ' ' :: bracketed text

/-- Expressions joined from left to right. -/
def allOf (first : Expr) (others : List Expr) : Expr := others.foldl (.binary .and) first

/-- The tokens that parsing allows: no string with a lone equals sign, no integer too long. -/
def Piece.Allowed (piece : Piece) : Prop :=
  (piece.terminal = .string → ¬ HasLoneEquals piece.text) ∧ ¬ piece.Overlong

theorem allowed_mark (symbol : Symbol) : (Piece.mark symbol).Allowed := by
  constructor
  · intro same
    cases same
  · intro long
    cases long.1

theorem allowed_grouped {pieces : List Piece} (allowed : ∀ piece ∈ pieces, piece.Allowed) :
    ∀ piece ∈ grouped pieces, piece.Allowed := by
  intro piece member
  rw [grouped, List.mem_cons, List.mem_append, List.mem_singleton] at member
  rcases member with rfl | member | rfl
  · exact allowed_mark _
  · exact allowed piece member
  · exact allowed_mark _

theorem pieces_of_parse {text : List Char} {expr : Expr} (accepted : parse text = .ok expr) :
    ∃ pieces, Lexes .operand text pieces ∧ Derives 0 pieces expr ∧
      ∀ piece ∈ pieces, piece.Allowed := by
  obtain ⟨pieces, lexes, derives, alone, _, short⟩ := (parse_ok_iff text expr).mp accepted
  exact ⟨pieces, lexes, derives, fun piece member => ⟨alone piece member, short piece member⟩⟩

/-- Further conjuncts are read one by one, and each is joined to all that was read before. -/
theorem conjuncts_read {texts : List (List Char)} {trees : List Expr}
    (accepted : List.Forall₂ (fun text tree => parse text = .ok tree) texts trees) :
    ∃ pieces, Lexes .operator (texts.flatMap conjunct) pieces ∧
      (∀ piece ∈ pieces, piece.Allowed) ∧ ∀ front first, Derives 2 front first →
        Derives 2 (front ++ pieces) (allOf first trees) := by
  induction accepted with
  | nil => exact ⟨[], .nothing _, nofun, fun front first derives => by rwa [List.append_nil]⟩
  | @cons text tree texts trees accepted _ ih =>
    obtain ⟨own, lexes, derives, allowed⟩ := pieces_of_parse accepted
    obtain ⟨others, behind, allowedOthers, joins⟩ := ih
    have joined :
        Leads .operator (.mark .and) (' ' :: (bracketed text ++ texts.flatMap conjunct)) :=
      (scan_iff_leads _).mpr ⟨rfl, due_operator (by decide)⟩
    refine ⟨.mark .and :: (grouped own ++ others), ?_, ?_, ?_⟩
    · exact .blank rfl (.piece joined (.blank rfl (lexes_bracketed lexes derives behind)))
    · intro piece member
      rcases List.mem_cons.mp member with rfl | member
      · exact allowed_mark _
      · rcases List.mem_append.mp member with member | member
        · exact allowed_grouped allowed piece member
        · exact allowedOthers piece member
    · intro front first derivesFirst
      have both : Derives 2 (front ++ .mark .and :: grouped own) (.binary .and first tree) :=
        .binary .and derivesFirst ((Derives.group derives).lower (by decide))
      have all := joins _ _ both
      rwa [List.append_assoc, List.cons_append] at all

/-- The first conjunct and all further ones. -/
theorem parse_conjuncts {text : List Char} {tree : Expr} {texts : List (List Char)}
    {trees : List Expr} (first : parse text = .ok tree)
    (accepted : List.Forall₂ (fun text tree => parse text = .ok tree) texts trees)
    (shallow : (allOf tree trees).depth ≤ 150) :
    parse (bracketed text ++ texts.flatMap conjunct) = .ok (allOf tree trees) := by
  obtain ⟨own, lexes, derives, allowed⟩ := pieces_of_parse first
  obtain ⟨others, behind, allowedOthers, joins⟩ := conjuncts_read accepted
  have all : ∀ piece ∈ grouped own ++ others, piece.Allowed := by
    intro piece member
    rcases List.mem_append.mp member with member | member
    · exact allowed_grouped allowed piece member
    · exact allowedOthers piece member
  refine (parse_ok_iff _ _).mpr ⟨grouped own ++ others, lexes_bracketed lexes derives behind, ?_,
    fun piece member => (all piece member).1, Nat.le_trans shallow (by decide),
    fun piece member => (all piece member).2⟩
  exact (joins _ _ ((Derives.group derives).lower (by decide))).lower (Nat.zero_le 2)

end Groups

section Truth

/-- Whether the value of an expression counts as true. -/
def holdsIn (scope : Fields) (expr : Expr) : Except EvalError Bool := do
  (← expr.evaluate scope).holds

theorem holdsIn_and (scope : Fields) (left right : Expr) :
    holdsIn scope (.binary .and left right) =
      (holdsIn scope left).bind fun held => if held then holdsIn scope right else .ok false := by
  unfold holdsIn
  rw [evaluate]
  cases first : evaluate scope left with
  | error error => rfl
  | ok value =>
    cases truth : value.holds with
    | error error => simp [settles, truth, bind, Except.bind]
    | ok held =>
      cases held with
      | false => simp [settles, truth, bind, Except.bind, pure, Except.pure]
      | true =>
        cases evaluate scope right <;>
          simp [settles, truth, applyBinary, bind, Except.bind, pure, Except.pure]

theorem holdsIn_and_iff (scope : Fields) (left right : Expr) :
    holdsIn scope (.binary .and left right) = .ok true ↔
      holdsIn scope left = .ok true ∧ holdsIn scope right = .ok true := by
  rw [holdsIn_and]
  cases holdsIn scope left with
  | error error => exact iff_of_false nofun fun both => nomatch both.1
  | ok held => cases held <;> simp [Except.bind]

/-- Expressions joined from left to right hold where all of them do. -/
theorem holdsIn_allOf_iff (scope : Fields) (first : Expr) (others : List Expr) :
    holdsIn scope (allOf first others) = .ok true ↔
      ∀ each ∈ first :: others, holdsIn scope each = .ok true := by
  induction others generalizing first with
  | nil => simp [allOf]
  | cons other others ih =>
    rw [allOf, List.foldl_cons, ← allOf, ih, List.forall_mem_cons, holdsIn_and_iff,
      List.forall_mem_cons, List.forall_mem_cons, and_assoc]

/-- They hold or do not hold where each of them does one or the other. -/
theorem holdsIn_allOf_defined (scope : Fields) (first : Expr) (others : List Expr)
    (defined : ∀ each ∈ first :: others, ∃ held, holdsIn scope each = .ok held) :
    ∃ held, holdsIn scope (allOf first others) = .ok held := by
  induction others generalizing first with
  | nil => exact defined first List.mem_cons_self
  | cons other others ih =>
    rw [List.forall_mem_cons, List.forall_mem_cons] at defined
    obtain ⟨⟨held, own⟩, ⟨next, also⟩, more⟩ := defined
    refine ih _ (List.forall_mem_cons.mpr ⟨?_, more⟩)
    rw [holdsIn_and, own]
    cases held with
    | false => exact ⟨false, rfl⟩
    | true => exact ⟨next, also⟩

end Truth

end Keymap.Expr

namespace Keymap

open Keymap.Expr

theorem conjunction_text (guard : Guard) (guards : List Guard) :
    ∃ text, conjunction (guard :: guards) = some text ∧
      text.toList = bracketed guard.text.toList ++
        (guards.map fun other => other.text.toList).flatMap conjunct := by
  refine ⟨_, rfl, ?_⟩
  have later : ∀ (text : String) (texts : List String),
      (Text.joined ") && (" (text :: texts)).toList ++ [')'] =
        text.toList ++ ')' :: (texts.map String.toList).flatMap conjunct := by
    intro text texts
    induction texts generalizing text with
    | nil => rfl
    | cons other others ih =>
      rw [Text.joined, String.toList_append, String.toList_append, List.append_assoc, ih]
      · simp [conjunct, bracketed]
      · exact nofun
  have whole := later guard.text (guards.map (·.text))
  rw [List.map_map] at whole
  rw [List.map_cons, String.toList_append, String.toList_append, List.append_assoc]
  show "(".toList ++ (_ ++ [')']) = _
  rw [whole]
  simp [bracketed, Function.comp_def]

/-- The conjunction of guards is read as its guards are, one by one, joined from left to right; so
it holds where all of them hold, and holds or does not hold where each does one or the other. -/
theorem conjunction_holds_iff (guard : Guard) (guards : List Guard) (tree : Expr)
    (trees : List Expr)
    (accepted : List.Forall₂ (fun guard tree => Expr.parse guard.text.toList = .ok tree)
      (guard :: guards) (tree :: trees))
    (shallow : (allOf tree trees).depth ≤ 150) :
    ∃ text, conjunction (guard :: guards) = some text ∧
      Expr.parse text.toList = .ok (allOf tree trees) ∧
      ∀ scope : Fields,
        (holdsIn scope (allOf tree trees) = .ok true ↔
          ∀ each ∈ tree :: trees, holdsIn scope each = .ok true) ∧
        ((∀ each ∈ tree :: trees, ∃ held, holdsIn scope each = .ok held) →
          ∃ held, holdsIn scope (allOf tree trees) = .ok held) := by
  obtain ⟨text, shown, written⟩ := conjunction_text guard guards
  cases accepted with
  | cons first others =>
    have read := parse_conjuncts first (List.forall₂_map_left_iff.mpr others) shallow
    refine ⟨text, shown, written ▸ read, fun scope => ⟨?_, ?_⟩⟩
    · exact holdsIn_allOf_iff scope tree trees
    · exact holdsIn_allOf_defined scope tree trees

/-- A guard that binds loosely, one over two lines, and one with a string that could be a seam. -/
theorem conjunction_of_three :
    ∃ text, conjunction [.ofText "a || b", .ofText "c ?\n d : e", .ofText "s != ') && ('"] =
        some text ∧
      Expr.parse text.toList = .ok (.binary .and
        (.binary .and (.binary .or (.name "a") (.name "b"))
          (.conditional (.name "c") (.name "d") (.name "e")))
        (.binary .unequal (.name "s") (.constant (.text ") && (")))) := by
  obtain ⟨text, shown, read, _⟩ := conjunction_holds_iff (.ofText "a || b")
    [.ofText "c ?\n d : e", .ofText "s != ') && ('"] (.binary .or (.name "a") (.name "b"))
    [.conditional (.name "c") (.name "d") (.name "e"),
      .binary .unequal (.name "s") (.constant (.text ") && ("))]
    (.cons rfl (.cons rfl (.cons rfl .nil))) (by decide)
  exact ⟨text, shown, read⟩

end Keymap
