import Keymap.Proofs.Expr.Reading

/-!
Whatever the reader accepts, the grammar derives. What waits stands for the tokens it was read from
(`Waits`), and leaves room for an operand that binds tightly enough; each token keeps this
(`stands_take`), so the expression at the end is derived from all tokens (`derives_of_advance`).
-/

set_option autoImplicit false

namespace Keymap.Expr

/-- The least level of an operand that what waits can take. -/
def room : Stack → Nat
  | .unary _ :: _ => 7
  | .binary op _ :: _ => op.level + 1
  | _ => 0

theorem room_le (stack : Stack) : room stack ≤ 7 := by
  cases stack with
  | nil => exact Nat.zero_le 7
  | cons frame rest =>
    cases frame with
    | binary op left =>
      have below := level_below op
      rw [room]
      omega
    | unary op => exact Nat.le_refl 7
    | _ => exact Nat.zero_le 7

/-- The tokens that have been read into what waits. -/
inductive Waits : List Piece → Stack → Prop
  | nothing : Waits [] []
  | unary {before : List Piece} {stack : Stack} (op : UnaryOp) (waits : Waits before stack) :
      Waits (before ++ [.mark (unaryMark op)]) (.unary op :: stack)
  | binary {before own : List Piece} {stack : Stack} {left : Expr} (op : BinaryOp)
      (waits : Waits before stack) (fits : room stack ≤ op.level)
      (derives : Derives op.level own left) :
      Waits (before ++ own ++ [.mark (binaryMark op)]) (.binary op left :: stack)
  | group {before : List Piece} {stack : Stack} (waits : Waits before stack) :
      Waits (before ++ [.mark .leftParen]) (.group :: stack)
  | array {before : List Piece} {stack : Stack} (waits : Waits before stack) :
      Waits (before ++ [.mark .leftBracket]) (.array [] :: stack)
  | item {before own : List Piece} {stack : Stack} {items : List Expr} {item : Expr}
      (waits : Waits before (.array items :: stack)) (derives : Derives 0 own item) :
      Waits (before ++ own ++ [.mark .comma]) (.array (item :: items) :: stack)
  | index {before own : List Piece} {stack : Stack} {target : Expr} (waits : Waits before stack)
      (derives : Derives 8 own target) :
      Waits (before ++ own ++ [.mark .leftBracket]) (.index target :: stack)
  | whenTrue {before own : List Piece} {stack : Stack} {test : Expr} (waits : Waits before stack)
      (fits : room stack = 0) (derives : Derives 1 own test) :
      Waits (before ++ own ++ [.mark .question]) (.whenTrue test :: stack)
  | whenFalse {before own : List Piece} {stack : Stack} {test whenTrue : Expr}
      (waits : Waits before (.whenTrue test :: stack)) (derives : Derives 0 own whenTrue) :
      Waits (before ++ own ++ [.mark .colon]) (.whenFalse test whenTrue :: stack)

/-- An operand of a level has been read on top of what waits. -/
def Rests (level : Nat) (pieces : List Piece) (stack : Stack) (operand : Expr) : Prop :=
  ∃ before own, pieces = before ++ own ∧ Waits before stack ∧ Derives level own operand

theorem Rests.lower {level least : Nat} {pieces : List Piece} {stack : Stack} {operand : Expr}
    (rests : Rests level pieces stack operand) (atMost : least ≤ level) :
    Rests least pieces stack operand := by
  obtain ⟨before, own, same, waits, derives⟩ := rests
  exact ⟨before, own, same, waits, derives.lower atMost⟩

section Closing

variable {pieces : List Piece} {stack : Stack} {operand : Expr}

theorem rests_unary {op : UnaryOp} (rests : Rests 7 pieces (.unary op :: stack) operand) :
    Rests 7 pieces stack (.unary op operand) := by
  obtain ⟨_, own, rfl, waits, derives⟩ := rests
  cases waits with
  | unary _ waits =>
    exact ⟨_, .mark (unaryMark op) :: own, by simp, waits, .unary op derives⟩

theorem rests_binary {op : BinaryOp} {left : Expr}
    (rests : Rests (op.level + 1) pieces (.binary op left :: stack) operand) :
    room stack ≤ op.level ∧ Rests op.level pieces stack (.binary op left operand) := by
  obtain ⟨_, own, rfl, waits, derives⟩ := rests
  cases waits with
  | @binary _ front _ _ _ waits fits derivesLeft =>
    exact ⟨fits, _, front ++ .mark (binaryMark op) :: own, by simp, waits,
      .binary op derivesLeft derives⟩

theorem rests_conditional {test whenTrue : Expr}
    (rests : Rests 0 pieces (.whenFalse test whenTrue :: stack) operand) :
    room stack = 0 ∧ Rests 0 pieces stack (.conditional test whenTrue operand) := by
  obtain ⟨_, own, rfl, waits, derives⟩ := rests
  cases waits with
  | @whenFalse _ second _ _ _ waits derivesTrue =>
    cases waits with
    | @whenTrue _ first _ _ waits fits derivesTest =>
      exact ⟨fits, _, first ++ .mark .question :: (second ++ .mark .colon :: own), by simp, waits,
        .conditional derivesTest derivesTrue derives⟩

/-- Closing up to a level leaves an operand of this level, and what waits has room for it. -/
theorem rests_collapse (level bound : Nat) (below : level ≤ 6)
    (rests : Rests bound pieces stack operand) (atMost : level ≤ bound)
    (fits : room stack ≤ bound) :
    room (collapse level stack operand).1 ≤ level ∧
      Rests level pieces (collapse level stack operand).1 (collapse level stack operand).2 := by
  induction stack generalizing operand bound with
  | nil => exact ⟨Nat.zero_le _, rests.lower atMost⟩
  | cons frame rest ih =>
    cases frame with
    | unary op =>
      rw [collapse]
      exact ih 7 (rests_unary (rests.lower fits)) (by omega) (room_le rest)
    | binary op left =>
      rw [collapse]
      split
      · next tight =>
        obtain ⟨fitsRest, restsAll⟩ := rests_binary (rests.lower fits)
        exact ih op.level restsAll tight fitsRest
      · next loose => exact ⟨Nat.not_le.mp loose, rests.lower atMost⟩
    | whenFalse test whenTrue =>
      rw [collapse]
      split
      · next closed =>
        obtain ⟨fitsRest, restsAll⟩ := rests_conditional (rests.lower (Nat.zero_le bound))
        exact ih 0 restsAll (Nat.le_of_eq closed) (Nat.le_of_eq fitsRest)
      · exact ⟨Nat.zero_le _, rests.lower atMost⟩
    | _ => exact ⟨Nat.zero_le _, rests.lower atMost⟩

/-- Closing everything uncovers the frame that only a bracket, a comma or a colon can close. -/
theorem rests_closed (rests : Rests 8 pieces stack operand) {outer : Stack} {closed : Expr}
    (closes : collapse 0 stack operand = (outer, closed)) :
    Rests 0 pieces outer closed := by
  have collapsed := (rests_collapse 0 8 (by decide) rests (by decide)
    (Nat.le_trans (room_le stack) (by decide))).2
  rwa [closes] at collapsed

/-- The items that have been read into an array, with more of them behind. -/
theorem waits_array {before : List Piece} {items : List Expr}
    (waits : Waits before (.array items :: stack)) :
    ∃ outer inner, before = outer ++ .mark .leftBracket :: inner ∧ Waits outer stack ∧
      ∀ own others, Lists own others → others ≠ [] →
        Lists (inner ++ own) (items.reverse ++ others) := by
  induction items generalizing before with
  | nil =>
    cases waits with
    | array waits => exact ⟨_, [], rfl, waits, fun _ _ lists _ => lists⟩
  | cons item items ih =>
    cases waits with
    | @item _ own _ _ _ waits derives =>
      obtain ⟨outer, inner, rfl, waits, lists⟩ := ih waits
      refine ⟨outer, inner ++ own ++ [.mark .comma], by simp, waits, ?_⟩
      intro behind others listed held
      have extended := lists _ _ (.more derives listed held) (List.cons_ne_nil _ _)
      rw [List.reverse_cons, List.append_assoc, List.append_assoc, List.append_assoc]
      exact extended

end Closing

/-- A stage stands for the tokens that have been read. -/
def Stands (pieces : List Piece) : Stage → Prop
  | .operand stack => Waits pieces stack
  | .opened stack => Waits pieces stack ∧ ∃ outer, stack = .array [] :: outer
  | .complete stack operand => Rests 8 pieces stack operand
  | .member stack target => ∃ before, pieces = before ++ [.mark .dot] ∧ Rests 8 before stack target

section Steps

variable {pieces : List Piece} {stack : Stack} {operand : Expr} {next : Stage}

theorem stands_leaf (waits : Waits pieces stack) (piece : Piece) {expr : Expr}
    (derives : Derives 9 [piece] expr) : Stands (pieces ++ [piece]) (.complete stack expr) :=
  ⟨pieces, [piece], rfl, waits, derives.lower (by decide)⟩

theorem stands_stepOperand (waits : Waits pieces stack) (piece : Piece)
    (fits : piece.terminal.Matches piece.text)
    (goes : stepOperand stack ⟨piece.terminal, piece.text, .start⟩ = some next) :
    Stands (pieces ++ [piece]) next := by
  obtain ⟨terminal, text⟩ := piece
  cases terminal with
  | symbol mark =>
    obtain rfl : text = mark.text := fits
    cases mark with
    | leftParen =>
      cases goes
      exact .group waits
    | leftBracket =>
      cases goes
      exact ⟨.array waits, stack, rfl⟩
    | bang =>
      cases goes
      exact .unary .not waits
    | minus =>
      cases goes
      exact .unary .minus waits
    | plus =>
      cases goes
      exact .unary .plus waits
    | _ => cases goes
  | keyword known =>
    obtain rfl : text = known.text := fits
    cases goes
    exact stands_leaf waits _ (.keyword known)
  | name =>
    cases goes
    exact stands_leaf waits _ (.name text)
  | numeral =>
    cases goes
    exact stands_leaf waits _ (.numeral text)
  | string =>
    cases goes
    exact stands_leaf waits _ (.string text)

/-- The symbols that close nothing but operators. -/
theorem stands_operator (rests : Rests 8 pieces stack operand) (op : BinaryOp)
    (goes : stepComplete stack operand (binaryMark op) = some next) :
    Stands (pieces ++ [.mark (binaryMark op)]) next := by
  have below := level_below op
  obtain ⟨fits, before, own, rfl, waits, derives⟩ :=
    rests_collapse op.level 8 below rests (by omega)
      (Nat.le_trans (room_le stack) (by decide))
  rw [stepComplete_binary] at goes
  cases goes
  exact .binary op waits fits derives

theorem stands_question (rests : Rests 8 pieces stack operand)
    (goes : stepComplete stack operand .question = some next) :
    Stands (pieces ++ [.mark .question]) next := by
  obtain ⟨fits, before, own, rfl, waits, derives⟩ :=
    rests_collapse 1 8 (by decide) rests (by decide)
      (Nat.le_trans (room_le stack) (by decide))
  have closed : room (collapse 1 stack operand).1 = 0 := by
    revert fits
    generalize (collapse 1 stack operand).1 = outer
    cases outer with
    | nil => exact fun _ => rfl
    | cons frame rest =>
      cases frame with
      | unary op => exact fun few => absurd (show 7 ≤ 1 from few) (by decide)
      | binary op left =>
        have positive := op.level_positive
        exact fun few => absurd (show op.level + 1 ≤ 1 from few) (by omega)
      | _ => exact fun _ => rfl
  cases goes
  exact .whenTrue waits closed derives

theorem stands_colon (rests : Rests 8 pieces stack operand)
    (goes : stepComplete stack operand .colon = some next) :
    Stands (pieces ++ [.mark .colon]) next := by
  rw [stepComplete] at goes
  split at goes
  · next closes =>
    obtain ⟨before, own, rfl, waits, derives⟩ := rests_closed rests closes
    cases goes
    exact .whenFalse waits derives
  · cases goes

theorem stands_comma (rests : Rests 8 pieces stack operand)
    (goes : stepComplete stack operand .comma = some next) :
    Stands (pieces ++ [.mark .comma]) next := by
  rw [stepComplete] at goes
  split at goes
  · next closes =>
    obtain ⟨before, own, rfl, waits, derives⟩ := rests_closed rests closes
    cases goes
    exact .item waits derives
  · cases goes

theorem stands_rightParen (rests : Rests 8 pieces stack operand)
    (goes : stepComplete stack operand .rightParen = some next) :
    Stands (pieces ++ [.mark .rightParen]) next := by
  rw [stepComplete] at goes
  split at goes
  · next closes =>
    obtain ⟨_, own, rfl, waits, derives⟩ := rests_closed rests closes
    cases goes
    cases waits with
    | group waits =>
      exact ⟨_, .mark .leftParen :: (own ++ [.mark .rightParen]), by simp, waits,
        (Derives.group derives).lower (by decide)⟩
  · cases goes

theorem stands_rightBracket (rests : Rests 8 pieces stack operand)
    (goes : stepComplete stack operand .rightBracket = some next) :
    Stands (pieces ++ [.mark .rightBracket]) next := by
  rw [stepComplete] at goes
  split at goes
  · next closes =>
    obtain ⟨_, own, rfl, waits, derives⟩ := rests_closed rests closes
    obtain ⟨before, inner, rfl, waits, lists⟩ := waits_array waits
    cases goes
    refine ⟨before, .mark .leftBracket :: ((inner ++ own) ++ [.mark .rightBracket]), by simp,
      waits, ?_⟩
    rw [List.reverse_cons]
    exact (Derives.array (lists own _ (.last derives) (List.cons_ne_nil _ _))).lower (by decide)
  · next closes =>
    obtain ⟨_, own, rfl, waits, derives⟩ := rests_closed rests closes
    cases goes
    cases waits with
    | @index _ front _ _ waits derivesTarget =>
      exact ⟨_, front ++ .mark .leftBracket :: (own ++ [.mark .rightBracket]), by simp, waits,
        .index derivesTarget derives⟩
  · cases goes

theorem stands_stepComplete (rests : Rests 8 pieces stack operand) (mark : Symbol)
    (goes : stepComplete stack operand mark = some next) :
    Stands (pieces ++ [.mark mark]) next := by
  cases mark with
  | dot =>
    cases goes
    exact ⟨pieces, rfl, rests⟩
  | leftBracket =>
    cases goes
    obtain ⟨before, own, rfl, waits, derives⟩ := rests
    exact .index waits derives
  | question => exact stands_question rests goes
  | colon => exact stands_colon rests goes
  | comma => exact stands_comma rests goes
  | rightParen => exact stands_rightParen rests goes
  | rightBracket => exact stands_rightBracket rests goes
  | or => exact stands_operator rests .or goes
  | and => exact stands_operator rests .and goes
  | identical => exact stands_operator rests .identical goes
  | distinct => exact stands_operator rests .distinct goes
  | equal => exact stands_operator rests .equal goes
  | unequal => exact stands_operator rests .unequal goes
  | atMost => exact stands_operator rests .atMost goes
  | atLeast => exact stands_operator rests .atLeast goes
  | less => exact stands_operator rests .less goes
  | greater => exact stands_operator rests .greater goes
  | plus => exact stands_operator rests .add goes
  | minus => exact stands_operator rests .sub goes
  | star => exact stands_operator rests .mul goes
  | slash => exact stands_operator rests .div goes
  | percent => exact stands_operator rests .mod goes
  | bang => cases goes
  | leftParen => cases goes

/-- Each token that is taken belongs to what has been read. -/
theorem stands_take (stage : Stage) (stands : Stands pieces stage) (piece : Piece)
    (fits : piece.terminal.Matches piece.text) (goes : take stage piece = some next) :
    Stands (pieces ++ [piece]) next := by
  obtain ⟨terminal, text⟩ := piece
  cases stage with
  | operand stack => exact stands_stepOperand stands _ fits goes
  | opened stack =>
    obtain ⟨waits, outer, rfl⟩ := stands
    by_cases ends : terminal = .symbol .rightBracket
    · subst ends
      obtain rfl : text = Symbol.rightBracket.text := fits
      cases goes
      cases waits with
      | array waits =>
        exact ⟨_, [.mark .leftBracket, .mark .rightBracket], by simp [Piece.mark], waits,
          (Derives.array .nothing).lower (by decide)⟩
    · have same : take (.opened (.array [] :: outer)) ⟨terminal, text⟩ =
          stepOperand (.array [] :: outer) ⟨terminal, text, .start⟩ := by
        cases terminal with
        | symbol mark => cases mark <;> first | rfl | exact absurd rfl ends
        | _ => rfl
      exact stands_stepOperand waits _ fits (same.symm.trans goes)
  | complete stack operand =>
    cases terminal with
    | symbol mark =>
      obtain rfl : text = mark.text := fits
      exact stands_stepComplete stands mark goes
    | _ => cases goes
  | member stack target =>
    cases terminal with
    | name =>
      obtain ⟨_, rfl, before, own, rfl, waits, derives⟩ := stands
      cases goes
      exact ⟨before, own ++ [.mark .dot, ⟨.name, text⟩], by simp, waits, .member text derives⟩
    | symbol mark => cases goes
    | keyword known => cases goes
    | numeral => cases goes
    | string => cases goes

theorem stands_advance (stage : Stage) (stands : Stands pieces stage) (more : List Piece)
    (fits : ∀ piece ∈ more, piece.terminal.Matches piece.text)
    (goes : advance stage more = some next) : Stands (pieces ++ more) next := by
  induction more generalizing pieces stage with
  | nil =>
    cases goes
    rw [List.append_nil]
    exact stands
  | cons piece rest ih =>
    rw [advance_cons, Option.bind_eq_some_iff] at goes
    obtain ⟨middle, taken, goes⟩ := goes
    have standsNext := stands_take stage stands piece (fits piece List.mem_cons_self) taken
    have reached := ih middle standsNext
      (fun other member => fits other (List.mem_cons_of_mem piece member)) goes
    rwa [List.append_assoc, List.singleton_append] at reached

/-- The grammar derives what the reader has at the end. -/
theorem derives_of_advance (pieces : List Piece) (expr : Expr) (final : Stage)
    (fits : ∀ piece ∈ pieces, piece.terminal.Matches piece.text)
    (reached : advance (.operand []) pieces = some final) (finished : finish? final = some expr) :
    Derives 0 pieces expr := by
  have stands := stands_advance (.operand []) .nothing pieces fits reached
  rw [List.nil_append] at stands
  cases final with
  | complete stack operand =>
    rw [finish?] at finished
    split at finished
    · next closes =>
      cases finished
      obtain ⟨_, own, rfl, ⟨⟩, derives⟩ := rests_closed stands closes
      exact derives
    · cases finished
  | _ => cases finished

end Steps

end Keymap.Expr
