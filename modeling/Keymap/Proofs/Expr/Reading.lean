import Keymap.Proofs.Expr.Grammar
import Keymap.Proofs.Expr.Scanning

/-!
Reading what the grammar derives. The reader takes the tokens of an expression on top of whatever
waits, as long as nothing that waits binds as tightly as the expression does at its left end
(`reads_of_derives`). What it is left with may still be open at the right end, but closes as the
whole expression would.
-/

set_option autoImplicit false

namespace Keymap.Expr

section Leaves

theorem ofDigits_digitChars (value : Nat) :
    Number.ofDigits ((Number.digitChars value).filterMap Text.digitValue?) = value := by
  have each : ∀ c ∈ decimals, Text.digitValue? c = some (c.toNat - '0'.toNat) := by
    intro c member
    fin_cases member <;> rfl
  have through : ∀ (digits : List Char) (start : Nat), (∀ c ∈ digits, c ∈ decimals) →
      (digits.filterMap Text.digitValue?).foldl (fun value digit => 10 * value + digit) start =
        Nat.ofDigitChars 10 digits start := by
    intro digits
    induction digits with
    | nil => exact fun _ _ => rfl
    | cons c rest ih =>
      intro start decimal
      rw [List.filterMap_cons, each c (decimal c List.mem_cons_self), Nat.ofDigitChars_cons]
      exact ih _ fun other member => decimal other (List.mem_cons_of_mem c member)
  rw [Number.ofDigits, through _ _ (digitChars_decimal value)]
  exact Nat.ofDigitChars_toDigits (by omega) (by omega)

theorem numeralValue_digits (value : Nat) :
    numeralValue (Number.digitChars value) = .int value := by
  have all : (Number.digitChars value).all Text.isDigit = true :=
    List.all_eq_true.mpr (isDigit_digitChars value)
  rw [numeralValue, if_pos all, ofDigits_digitChars]

theorem unescape_cons {c : Char} (unescaped : c ≠ '\\') (rest : List Char) :
    unescape (c :: rest) = c :: unescape rest := by
  rw [unescape]
  intro _ _ same
  exact absurd same unescaped

theorem unescape_escaped (content : List Char) : unescape (escaped content) = content := by
  induction content with
  | nil => rfl
  | cons c rest ih =>
    unfold escaped
    split
    · next special =>
      have meant : unescape ('\\' :: c :: escaped rest) = c :: unescape (escaped rest) := by
        rcases special with rfl | rfl <;> rfl
      rw [meant, ih]
    · next plain =>
      rw [not_or] at plain
      rw [unescape_cons plain.1, ih]

theorem stringContent_escaped (content : String) :
    stringContent ('"' :: escaped content.toList ++ ['"']) = content := by
  have body : (('"' :: escaped content.toList ++ ['"']).drop 1).dropLast =
      escaped content.toList := by
    rw [List.cons_append, List.drop_succ_cons, List.drop_zero, List.dropLast_concat]
  rw [stringContent, body, if_neg (by simp), unescape_escaped, String.ofList_toList]

end Leaves

/-- What a token does to a stage. -/
def take (stage : Stage) (piece : Piece) : Option Stage :=
  step stage ⟨piece.terminal, piece.text, .start⟩

/-- What tokens do to a stage, one after the other. -/
def advance (stage : Stage) (pieces : List Piece) : Option Stage := pieces.foldlM take stage

theorem advance_cons (stage : Stage) (piece : Piece) (rest : List Piece) :
    advance stage (piece :: rest) = (take stage piece).bind fun next => advance next rest := by
  rw [advance, List.foldlM_cons]
  rfl

theorem advance_append (stage : Stage) (front back : List Piece) :
    advance stage (front ++ back) =
      (advance stage front).bind fun next => advance next back := by
  rw [advance, List.foldlM_append]
  rfl

theorem step_anywhere (stage : Stage) (terminal : Terminal) (text : List Char)
    (here there : Position) :
    step stage ⟨terminal, text, here⟩ = step stage ⟨terminal, text, there⟩ := by
  cases stage <;> rfl

/-- A token that is this piece, wherever it stands. -/
def Shows (piece : Piece) (lexeme : Lexeme) : Prop :=
  ∃ position, lexeme = .token ⟨piece.terminal, piece.text, position⟩

/-- The reader gives an expression where all is tokens and they come to its end. -/
theorem run_ok_iff (last : Position) (stage : Stage) (lexemes : List Lexeme) (expr : Expr) :
    run last stage lexemes = .ok expr ↔ ∃ pieces final, List.Forall₂ Shows pieces lexemes ∧
      advance stage pieces = some final ∧ finish? final = some expr := by
  induction lexemes generalizing last stage with
  | nil =>
    have finished : run last stage [] = .ok expr ↔ finish? stage = some expr := by
      rw [run]
      cases finish? stage <;> simp
    rw [finished]
    constructor
    · exact fun ends => ⟨[], stage, .nil, rfl, ends⟩
    · rintro ⟨_, _, ⟨⟩, ⟨⟩, ends⟩
      exact ends
  | cons lexeme rest ih =>
    cases lexeme with
    | stray c position =>
      refine iff_of_false nofun ?_
      rintro ⟨_, _, shown, _⟩
      cases shown with
      | cons shows _ => exact nomatch shows
    | token token =>
      obtain ⟨terminal, text, position⟩ := token
      have taken : take stage ⟨terminal, text⟩ = step stage ⟨terminal, text, position⟩ :=
        step_anywhere _ _ _ _ _
      have through : run last stage (.token ⟨terminal, text, position⟩ :: rest) = .ok expr ↔
          ∃ next, take stage ⟨terminal, text⟩ = some next ∧ run position next rest = .ok expr := by
        rw [run, taken]
        cases step stage ⟨terminal, text, position⟩ <;> simp
      rw [through]
      constructor
      · rintro ⟨next, goes, ends⟩
        obtain ⟨pieces, final, shown, reached, finished⟩ := (ih position next).mp ends
        refine ⟨⟨terminal, text⟩ :: pieces, final, .cons ⟨position, rfl⟩ shown, ?_, finished⟩
        rw [advance_cons, goes, Option.bind_some, reached]
      · rintro ⟨pieces, final, shown, reached, finished⟩
        cases shown with
        | cons shows others =>
          obtain ⟨_, same⟩ := shows
          obtain ⟨rfl, rfl, rfl⟩ := Token.mk.inj (Lexeme.token.inj same)
          rw [advance_cons, Option.bind_eq_some_iff] at reached
          obtain ⟨next, goes, reached⟩ := reached
          exact ⟨next, goes, (ih _ next).mpr ⟨_, final, others, reached, finished⟩⟩

/-- Nothing on top of what waits binds at least as tightly as a level. -/
def Blocks (level : Nat) : Stack → Prop
  | .unary _ :: _ => False
  | .binary op _ :: _ => op.level < level
  | .whenFalse _ _ :: _ => 0 < level
  | _ => True

theorem collapse_of_blocks {level : Nat} {stack : Stack} (blocks : Blocks level stack)
    (operand : Expr) : collapse level stack operand = (stack, operand) := by
  cases stack with
  | nil => rfl
  | cons frame rest =>
    cases frame with
    | unary op => cases blocks
    | binary op left => rw [collapse, if_neg (Nat.not_le.mpr blocks)]
    | whenFalse test whenTrue => rw [collapse, if_neg (Nat.ne_of_gt blocks)]
    | _ => rfl

theorem blocks_tighter {level tighter : Nat} {stack : Stack} (atMost : level ≤ tighter)
    (blocks : Blocks level stack) : Blocks tighter stack := by
  cases stack with
  | nil => trivial
  | cons frame rest =>
    cases frame with
    | unary op => cases blocks
    | binary op left => exact Nat.lt_of_lt_of_le blocks atMost
    | whenFalse test whenTrue => exact Nat.lt_of_lt_of_le blocks atMost
    | _ => trivial

/-- An expression has been read on top of what waits: what is left closes as the expression would
at every level up to a bound, and has nothing open at its right end if it binds tightest. -/
def Delivers (bound : Nat) (stack : Stack) (expr : Expr) (stage : Stage) : Prop :=
  ∃ waiting operand, stage = .complete waiting operand ∧
    (∀ level ≤ bound, collapse level waiting operand = collapse level stack expr) ∧
    (8 ≤ bound → waiting = stack ∧ operand = expr)

theorem delivers_whole (bound : Nat) (stack : Stack) (expr : Expr) :
    Delivers bound stack expr (.complete stack expr) :=
  ⟨stack, expr, rfl, fun _ _ => rfl, fun _ => ⟨rfl, rfl⟩⟩

/-- What reading the tokens of an expression comes to. -/
def Reads (bound : Nat) (pieces : List Piece) (expr : Expr) : Prop :=
  ∀ stack, (bound ≤ 6 → Blocks (max 1 bound) stack) →
    ∃ stage, advance (.operand stack) pieces = some stage ∧ Delivers bound stack expr stage

section Rules

variable {pieces front back inner : List Piece} {expr target operand left right : Expr}

theorem reads_tighter {level : Nat} (reads : Reads (level + 1) pieces expr) :
    Reads level pieces expr := by
  intro stack blocks
  obtain ⟨stage, read, waiting, own, complete, same, whole⟩ :=
    reads stack fun below => blocks_tighter (by omega) (blocks (by omega))
  exact ⟨stage, read, waiting, own, complete, fun other atMost => same other (by omega),
    fun highest => whole (by omega)⟩

/-- After an expression that nothing waits for but a bracket, the bracket can close. -/
theorem closes_of_reads (reads : Reads 0 pieces expr) (stack : Stack)
    (blocks : ∀ level, Blocks level stack) :
    ∃ waiting own, advance (.operand stack) pieces = some (.complete waiting own) ∧
      collapse 0 waiting own = (stack, expr) := by
  obtain ⟨_, read, waiting, own, rfl, same, _⟩ := reads stack fun _ => blocks _
  refine ⟨waiting, own, read, ?_⟩
  rw [same 0 (Nat.zero_le _), collapse_of_blocks (blocks 0)]

/-- The mark that closes what an expression stands in is read after the expression. -/
theorem advance_closed (reads : Reads 0 pieces expr) (stack : Stack)
    (blocks : ∀ level, Blocks level stack) (symbol : Symbol) (next : Stage)
    (closes : ∀ waiting own, collapse 0 waiting own = (stack, expr) →
      stepComplete waiting own symbol = some next) (rest : List Piece) :
    advance (.operand stack) (pieces ++ .mark symbol :: rest) = advance next rest := by
  obtain ⟨waiting, own, read, closed⟩ := closes_of_reads reads stack blocks
  have taken : take (.complete waiting own) (.mark symbol) = some next :=
    closes waiting own closed
  rw [advance_append, read, Option.bind_some, advance_cons, taken, Option.bind_some]

theorem reads_group (reads : Reads 0 inner expr) :
    Reads 9 (.mark .leftParen :: (inner ++ [.mark .rightParen])) expr := by
  intro stack _
  refine ⟨_, ?_, delivers_whole 9 stack expr⟩
  have opened : take (.operand stack) (.mark .leftParen) = some (.operand (.group :: stack)) :=
    rfl
  have closed := advance_closed reads (.group :: stack) (fun _ => trivial) .rightParen
    (.complete stack expr) (fun waiting own closes => by rw [stepComplete, closes]) []
  rw [advance_cons, opened, Option.bind_some, closed]
  rfl

/-- Nothing stays open after what members are taken of. -/
theorem reads_target (reads : Reads 8 pieces target) (stack : Stack) :
    advance (.operand stack) pieces = some (.complete stack target) := by
  obtain ⟨_, read, waiting, own, rfl, _, whole⟩ := reads stack fun below => by omega
  obtain ⟨rfl, rfl⟩ := whole (Nat.le_refl 8)
  exact read

theorem reads_member (name : List Char) (reads : Reads 8 pieces target) :
    Reads 8 (pieces ++ [.mark .dot, ⟨.name, name⟩])
      (.member target (String.ofList name)) := by
  intro stack _
  refine ⟨_, ?_, delivers_whole 8 stack _⟩
  have point : take (.complete stack target) (.mark .dot) = some (.member stack target) := rfl
  have taken : take (.member stack target) ⟨.name, name⟩ =
      some (.complete stack (.member target (String.ofList name))) := rfl
  rw [advance_append, reads_target reads, Option.bind_some, advance_cons, point,
    Option.bind_some, advance_cons, taken]
  rfl

theorem reads_index {key : Expr} (reads : Reads 8 front target) (readsKey : Reads 0 inner key) :
    Reads 8 (front ++ .mark .leftBracket :: (inner ++ [.mark .rightBracket]))
      (.index target key) := by
  intro stack _
  refine ⟨_, ?_, delivers_whole 8 stack _⟩
  have opened : take (.complete stack target) (.mark .leftBracket) =
      some (.operand (.index target :: stack)) := rfl
  have closed := advance_closed readsKey (.index target :: stack) (fun _ => trivial) .rightBracket
    (.complete stack (.index target key)) (fun waiting own closes => by
      rw [stepComplete, closes]) []
  rw [advance_append, reads_target reads, Option.bind_some, advance_cons, opened,
    Option.bind_some, closed]
  rfl

theorem reads_unary (op : UnaryOp) (reads : Reads 7 pieces operand) :
    Reads 7 (.mark (unaryMark op) :: pieces) (.unary op operand) := by
  intro stack _
  obtain ⟨stage, read, waiting, own, complete, same, _⟩ :=
    reads (.unary op :: stack) fun below => by omega
  have taken : take (.operand stack) (.mark (unaryMark op)) =
      some (.operand (.unary op :: stack)) := by
    cases op <;> rfl
  refine ⟨stage, ?_, waiting, own, complete, same, fun highest => by omega⟩
  rw [advance_cons, taken, Option.bind_some, read]

theorem level_below (op : BinaryOp) : op.level ≤ 6 := by cases op <;> decide

theorem stepComplete_binary (waiting : Stack) (own : Expr) (op : BinaryOp) :
    stepComplete waiting own (binaryMark op) =
      some (.operand (.binary op (collapse op.level waiting own).2 ::
        (collapse op.level waiting own).1)) := by
  cases op <;> rfl

theorem reads_binary (op : BinaryOp) (reads : Reads op.level front left)
    (readsRight : Reads (op.level + 1) back right) :
    Reads op.level (front ++ .mark (binaryMark op) :: back) (.binary op left right) := by
  intro stack blocks
  have below := level_below op
  have blocksOwn : Blocks op.level stack := by
    have given := blocks below
    rwa [Nat.max_eq_right op.level_positive] at given
  obtain ⟨_, read, waiting, own, rfl, same, _⟩ := reads stack blocks
  obtain ⟨stage, readRight, waitingRight, inner, complete, sameRight, _⟩ :=
    readsRight (.binary op left :: stack)
      fun _ => show op.level < max 1 (op.level + 1) by omega
  have taken : take (.complete waiting own) (.mark (binaryMark op)) =
      some (.operand (.binary op left :: stack)) := by
    show stepComplete waiting own (binaryMark op) = _
    rw [stepComplete_binary, same op.level (Nat.le_refl _), collapse_of_blocks blocksOwn]
  refine ⟨stage, ?_, waitingRight, inner, complete, ?_, fun highest => by omega⟩
  · rw [advance_append, read, Option.bind_some, advance_cons, taken, Option.bind_some, readRight]
  · intro other atMost
    rw [sameRight other (by omega), collapse, if_pos atMost]

theorem reads_conditional {first second third : List Piece} {test whenTrue whenFalse : Expr}
    (reads : Reads 1 first test) (readsTrue : Reads 0 second whenTrue)
    (readsFalse : Reads 0 third whenFalse) :
    Reads 0 (first ++ .mark .question :: (second ++ .mark .colon :: third))
      (.conditional test whenTrue whenFalse) := by
  intro stack blocks
  have blocksOne : Blocks 1 stack := blocks (Nat.zero_le 6)
  obtain ⟨_, read, waiting, own, rfl, same, _⟩ := reads stack fun _ => blocksOne
  have answered := advance_closed readsTrue (.whenTrue test :: stack) (fun _ => trivial) .colon
    (.operand (.whenFalse test whenTrue :: stack)) (fun waiting own closes => by
      rw [stepComplete, closes])
  obtain ⟨stage, readFalse, waitingFalse, inner, complete, sameFalse, _⟩ :=
    readsFalse (.whenFalse test whenTrue :: stack) fun _ => Nat.zero_lt_one
  have asked : take (.complete waiting own) (.mark .question) =
      some (.operand (.whenTrue test :: stack)) := by
    show stepComplete waiting own .question = _
    rw [stepComplete, same 1 (Nat.le_refl 1), collapse_of_blocks blocksOne]
  refine ⟨stage, ?_, waitingFalse, inner, complete, ?_, fun highest => by omega⟩
  · rw [advance_append, read, Option.bind_some, advance_cons, asked, Option.bind_some,
      answered, readFalse]
  · intro other atMost
    obtain rfl : other = 0 := Nat.le_zero.mp atMost
    rw [sameFalse 0 (Nat.le_refl 0), collapse, if_pos rfl]

/-- The end of an array is the only token that could close it before its first item. -/
theorem advance_opened (items : List Expr) (stack : Stack) (piece : Piece) (rest : List Piece)
    (final : Stage)
    (reached : advance (.operand (.array items :: stack)) (piece :: rest) = some final) :
    advance (.opened (.array items :: stack)) (piece :: rest) = some final := by
  obtain ⟨terminal, text⟩ := piece
  rw [advance_cons] at reached ⊢
  by_cases ends : terminal = .symbol .rightBracket
  · subst ends
    cases reached
  · have same : take (.opened (.array items :: stack)) ⟨terminal, text⟩ =
        take (.operand (.array items :: stack)) ⟨terminal, text⟩ := by
      cases terminal with
      | symbol mark => cases mark <;> first | rfl | exact absurd rfl ends
      | _ => rfl
    rw [same]
    exact reached

theorem reads_array_end {item : Expr} (reads : Reads 0 pieces item) (before : List Expr)
    (stack : Stack) :
    advance (.operand (.array before :: stack)) (pieces ++ [.mark .rightBracket]) =
      some (.complete stack (.array (before.reverse ++ [item]))) := by
  rw [advance_closed reads (.array before :: stack) (fun _ => trivial) .rightBracket
    (.complete stack (.array (item :: before).reverse))
    (fun waiting own closes => by rw [stepComplete, closes]), List.reverse_cons]
  rfl

theorem reads_array_next {item : Expr} (reads : Reads 0 front item) (before : List Expr)
    (stack : Stack) (rest : List Piece) :
    advance (.operand (.array before :: stack)) (front ++ .mark .comma :: rest) =
      advance (.operand (.array (item :: before) :: stack)) rest :=
  advance_closed reads (.array before :: stack) (fun _ => trivial) .comma _
    (fun waiting own closes => by rw [stepComplete, closes]) rest

theorem reads_array {items : List Expr} (empty : items = [] → inner = [])
    (each : items ≠ [] → ∀ before stack, advance (.operand (.array before :: stack))
      (inner ++ [.mark .rightBracket]) =
        some (.complete stack (.array (before.reverse ++ items)))) :
    Reads 9 (.mark .leftBracket :: (inner ++ [.mark .rightBracket])) (.array items) := by
  intro stack _
  refine ⟨_, ?_, delivers_whole 9 stack _⟩
  have opened : take (.operand stack) (.mark .leftBracket) =
      some (.opened (.array [] :: stack)) := rfl
  rw [advance_cons, opened, Option.bind_some]
  by_cases nothing : items = []
  · rw [empty nothing, nothing]
    rfl
  · have read := each nothing [] stack
    cases written : inner ++ [Piece.mark .rightBracket] with
    | nil => simp at written
    | cons piece others =>
      rw [written] at read
      exact advance_opened [] stack piece others _ read

end Rules

mutual

theorem reads_of_derives : ∀ {bound : Nat} {pieces : List Piece} {expr : Expr},
    Derives bound pieces expr → Reads bound pieces expr
  | _, _, _, .tighter derives => reads_tighter (reads_of_derives derives)
  | _, _, _, .conditional derivesTest derivesTrue derivesFalse =>
      reads_conditional (reads_of_derives derivesTest) (reads_of_derives derivesTrue)
        (reads_of_derives derivesFalse)
  | _, _, _, .binary op derivesLeft derivesRight =>
      reads_binary op (reads_of_derives derivesLeft) (reads_of_derives derivesRight)
  | _, _, _, .unary op derives => reads_unary op (reads_of_derives derives)
  | _, _, _, .member letters derives => reads_member letters (reads_of_derives derives)
  | _, _, _, .index derives derivesKey =>
      reads_index (reads_of_derives derives) (reads_of_derives derivesKey)
  | _, _, _, .numeral text => fun stack _ => ⟨_, rfl, delivers_whole 9 stack _⟩
  | _, _, _, .string text => fun stack _ => ⟨_, rfl, delivers_whole 9 stack _⟩
  | _, _, _, .keyword known => fun stack _ => ⟨_, rfl, delivers_whole 9 stack _⟩
  | _, _, _, .name text => fun stack _ => ⟨_, rfl, delivers_whole 9 stack _⟩
  | _, _, _, .array lists => reads_array (lists_empty lists) (advance_lists lists)
  | _, _, _, .group derives => reads_group (reads_of_derives derives)

theorem lists_empty : ∀ {pieces : List Piece} {items : List Expr}, Lists pieces items →
    items = [] → pieces = []
  | _, _, .nothing, _ => rfl

theorem advance_lists : ∀ {pieces : List Piece} {items : List Expr}, Lists pieces items →
    items ≠ [] → ∀ before stack, advance (.operand (.array before :: stack))
      (pieces ++ [.mark .rightBracket]) =
        some (.complete stack (.array (before.reverse ++ items)))
  | _, _, .nothing, held => absurd rfl held
  | _, _, .last derives, _ => reads_array_end (reads_of_derives derives)
  | _, _, .more derives lists held, _ => fun before stack => by
    rw [List.append_assoc, List.cons_append, reads_array_next (reads_of_derives derives),
      advance_lists lists held, List.reverse_cons, List.append_assoc]
    rfl

end

section Written

def Word.piece (word : Word) : Piece := ⟨word.terminal, word.text⟩

/-- What is written for an expression in parentheses or without is derived as an operand. -/
theorem derives_enclosed (least : Nat) (expr : Expr) (written : List Word) (atMost : least ≤ 9)
    (derives : Derives (level expr) (written.map Word.piece) expr) :
    Derives least ((enclosed least expr written).map Word.piece) expr := by
  unfold enclosed
  split
  · rw [List.map_cons, List.map_append]
    exact (Derives.group (derives.lower (Nat.zero_le _))).lower atMost
  · next bare => exact derives.lower (Nat.not_lt.mp bare)

theorem derives_constant (value : Constant) (plain : PlainConstant value) :
    Derives 9 [(constantWord value).piece] (.constant value) := by
  cases value with
  | undefined => exact .keyword .undefined
  | null => exact .keyword .null
  | bool flag =>
    cases flag with
    | true => exact .keyword .true
    | false => exact .keyword .false
  | number amount =>
    cases amount with
    | int value =>
      have derived := Derives.numeral (Number.digitChars value.natAbs)
      have same : ((value.natAbs : Nat) : Int) = value := Int.natAbs_of_nonneg plain.1
      rwa [numeralValue_digits, same] at derived
    | float x => cases plain
  | text content =>
    have derived := Derives.string ('"' :: escaped content.toList ++ ['"'])
    rwa [stringContent_escaped] at derived

mutual

/-- The grammar derives the words that are written for an expression. -/
theorem derives_words : ∀ (expr : Expr), Plain expr →
    Derives (level expr) ((words expr).map Word.piece) expr
  | .constant value, plain => (derives_constant value plain).lower (show 8 ≤ 9 by decide)
  | .name text, _ => by
    have derived := Derives.name text.toList
    rw [String.ofList_toList] at derived
    exact derived.lower (show 8 ≤ 9 by decide)
  | .member target text, plain => by
    have derived := Derives.member text.toList
      (derives_enclosed 8 target _ (by decide) (derives_words target plain.1))
    rw [String.ofList_toList] at derived
    rw [words, List.map_append]
    exact derived
  | .index target key, plain => by
    rw [words, List.map_append, List.map_cons, List.map_append]
    exact .index (derives_enclosed 8 target _ (by decide) (derives_words target plain.1))
      ((derives_words key plain.2).lower (Nat.zero_le _))
  | .unary op operand, plain => by
    rw [words, List.map_cons]
    exact .unary op (derives_enclosed 7 operand _ (by decide) (derives_words operand plain))
  | .binary op left right, plain => by
    have below := level_below op
    rw [words, List.map_append, List.map_cons]
    exact .binary op
      (derives_enclosed op.level left _ (by omega) (derives_words left plain.1))
      (derives_enclosed (op.level + 1) right _ (by omega) (derives_words right plain.2))
  | .conditional test whenTrue whenFalse, plain => by
    rw [words, List.map_append, List.map_cons, List.map_append, List.map_cons]
    exact .conditional
      (derives_enclosed 1 test _ (by decide) (derives_words test plain.1))
      ((derives_words whenTrue plain.2.1).lower (Nat.zero_le _))
      ((derives_words whenFalse plain.2.2).lower (Nat.zero_le _))
  | .array items, plain => by
    rw [words, List.map_cons, List.map_append]
    exact (Derives.array (lists_words items plain)).lower (show 8 ≤ 9 by decide)

theorem lists_words : ∀ (items : List Expr), ItemsPlain items →
    Lists ((itemsWords items).map Word.piece) items
  | [], _ => .nothing
  | [item], plain => .last ((derives_words item plain.1).lower (Nat.zero_le _))
  | item :: next :: rest, plain => by
    rw [itemsWords, List.map_append, List.map_cons]
    · exact .more ((derives_words item plain.1).lower (Nat.zero_le _))
        (lists_words (next :: rest) plain.2) (List.cons_ne_nil _ _)
    · exact nofun

end

/-- What the grammar derives is read as the expression. -/
theorem advance_derived {pieces : List Piece} {expr : Expr} (derives : Derives 0 pieces expr) :
    ∃ final, advance (.operand []) pieces = some final ∧ finish? final = some expr := by
  obtain ⟨waiting, own, read, closed⟩ :=
    closes_of_reads (reads_of_derives derives) [] fun _ => trivial
  exact ⟨_, read, by rw [finish?, closed]⟩

theorem run_derived (pieces : List Piece) (expr : Expr) (derives : Derives 0 pieces expr)
    (lexemes : List Lexeme) (shown : List.Forall₂ Shows pieces lexemes) (last : Position) :
    run last (.operand []) lexemes = .ok expr := by
  obtain ⟨final, read, finished⟩ := advance_derived derives
  exact (run_ok_iff last _ lexemes expr).mpr ⟨pieces, final, shown, read, finished⟩

/-- The grammar derives one tree at most from the same tokens. -/
theorem derives_unique {pieces : List Piece} {expr other : Expr}
    (derives : Derives 0 pieces expr) (also : Derives 0 pieces other) : expr = other := by
  obtain ⟨final, read, finished⟩ := advance_derived derives
  obtain ⟨finalAlso, readAlso, finishedAlso⟩ := advance_derived also
  obtain rfl := Option.some.inj (read.symm.trans readAlso)
  exact Option.some.inj (finished.symm.trans finishedAlso)

/-- The words of an expression are read as this expression. -/
theorem run_words (expr : Expr) (plain : Plain expr) (lexemes : List Lexeme)
    (spelled : List.Forall₂ Spells (words expr) lexemes) (last : Position) :
    run last (.operand []) lexemes = .ok expr := by
  have derived := (derives_words expr plain).lower (Nat.zero_le _)
  exact run_derived _ expr derived lexemes (List.forall₂_map_left_iff.mpr spelled) last

end Written

end Keymap.Expr
