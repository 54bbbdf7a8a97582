import Keymap.Expr.Parser

/-!
Writing expressions. Tokens stand between single blanks, strings in double quotes, and parentheses
only where an operand would otherwise be read as part of something else: a binary operator takes
operands of its own level on its left only, the last branch of a conditional may be a conditional,
and what members are taken of binds tightest.
-/

set_option autoImplicit false

namespace Keymap.Expr

/-- A token as it is written. -/
inductive Word where
  | mark (symbol : Symbol)
  | keyword (keyword : Keyword)
  | name (name : String)
  | numeral (value : Nat)
  | string (content : String)

def Symbol.text : Symbol → List Char
  | .bang => ['!']
  | .colon => [':']
  | .comma => [',']
  | .dot => ['.']
  | .less => ['<']
  | .greater => ['>']
  | .leftParen => ['(']
  | .rightParen => [')']
  | .leftBracket => ['[']
  | .rightBracket => [']']
  | .minus => ['-']
  | .percent => ['%']
  | .plus => ['+']
  | .question => ['?']
  | .slash => ['/']
  | .star => ['*']
  | .or => ['|', '|']
  | .and => ['&', '&']
  | .identical => ['=', '=', '=']
  | .distinct => ['!', '=', '=']
  | .equal => ['=', '=']
  | .unequal => ['!', '=']
  | .atMost => ['<', '=']
  | .atLeast => ['>', '=']

def Keyword.text : Keyword → List Char
  | .true => ['t', 'r', 'u', 'e']
  | .false => ['f', 'a', 'l', 's', 'e']
  | .null => ['n', 'u', 'l', 'l']
  | .undefined => ['u', 'n', 'd', 'e', 'f', 'i', 'n', 'e', 'd']

/-- A backslash before each backslash and each double quote. -/
def escaped : List Char → List Char
  | [] => []
  | c :: rest => if c = '\\' ∨ c = '"' then '\\' :: c :: escaped rest else c :: escaped rest

namespace Word

def text : Word → List Char
  | .mark symbol => symbol.text
  | .keyword known => known.text
  | .name shown => shown.toList
  | .numeral value => Number.digitChars value
  | .string content => '"' :: escaped content.toList ++ ['"']

def terminal : Word → Terminal
  | .mark symbol => .symbol symbol
  | .keyword known => .keyword known
  | .name _ => .name
  | .numeral _ => .numeral
  | .string _ => .string

end Word

def unaryMark : UnaryOp → Symbol
  | .not => .bang
  | .minus => .minus
  | .plus => .plus

def binaryMark : BinaryOp → Symbol
  | .or => .or
  | .and => .and
  | .identical => .identical
  | .distinct => .distinct
  | .equal => .equal
  | .unequal => .unequal
  | .atMost => .atMost
  | .atLeast => .atLeast
  | .less => .less
  | .greater => .greater
  | .add => .plus
  | .sub => .minus
  | .mul => .star
  | .div => .slash
  | .mod => .percent

/-- Doubles are not written; what stands for them here is left out by `PlainConstant`. -/
def constantWord : Constant → Word
  | .undefined => .keyword .undefined
  | .null => .keyword .null
  | .bool true => .keyword .true
  | .bool false => .keyword .false
  | .number (.int value) => .numeral value.natAbs
  | .number (.float _) => .keyword .undefined
  | .text content => .string content

/-- How tight an expression binds: conditionals loosest, then the binary operators by level, the
unary ones, and all that needs no operand at its right end. -/
def level : Expr → Nat
  | .conditional _ _ _ => 0
  | .binary op _ _ => op.level
  | .unary _ _ => 7
  | _ => 8

/-- What is written for an expression, in parentheses where a tighter one is due. -/
def enclosed (least : Nat) (expr : Expr) (written : List Word) : List Word :=
  if level expr < least then .mark .leftParen :: (written ++ [.mark .rightParen]) else written

mutual

/-- The tokens of an expression. -/
def words : Expr → List Word
  | .constant value => [constantWord value]
  | .name text => [.name text]
  | .member target text => enclosed 8 target (words target) ++ [.mark .dot, .name text]
  | .index target key =>
      enclosed 8 target (words target) ++
        .mark .leftBracket :: (words key ++ [.mark .rightBracket])
  | .unary op operand => .mark (unaryMark op) :: enclosed 7 operand (words operand)
  | .binary op left right =>
      enclosed op.level left (words left) ++
        .mark (binaryMark op) :: enclosed (op.level + 1) right (words right)
  | .conditional test whenTrue whenFalse =>
      enclosed 1 test (words test) ++
        .mark .question :: (words whenTrue ++ .mark .colon :: words whenFalse)
  | .array items => .mark .leftBracket :: (itemsWords items ++ [.mark .rightBracket])

def itemsWords : List Expr → List Word
  | [] => []
  | [item] => words item
  | item :: rest => words item ++ .mark .comma :: itemsWords rest

end

def render (expr : Expr) : List Char := [' '].intercalate ((words expr).map Word.text)

def IsName (text : List Char) : Prop :=
  ∃ first rest, text = first :: rest ∧ startsName first = true ∧
    ∀ c ∈ rest, continuesName c = true

def keywords : List String := ["true", "false", "null", "undefined"]

/-- A constant that expressions can name: no double, and an integer only if it has no sign and few
enough digits. -/
def PlainConstant : Constant → Prop
  | .number (.int value) => 0 ≤ value ∧ Number.fitsDigits value = true
  | .number (.float _) => False
  | _ => True

mutual

/-- An expression that can be written: its constants are plain, and its names are names. -/
def Plain : Expr → Prop
  | .constant value => PlainConstant value
  | .name text => IsName text.toList ∧ text ∉ keywords
  | .member target text => Plain target ∧ IsName text.toList
  | .index target key => Plain target ∧ Plain key
  | .unary _ operand => Plain operand
  | .binary _ left right => Plain left ∧ Plain right
  | .conditional test whenTrue whenFalse => Plain test ∧ Plain whenTrue ∧ Plain whenFalse
  | .array items => ItemsPlain items

def ItemsPlain : List Expr → Prop
  | [] => True
  | item :: rest => Plain item ∧ ItemsPlain rest

end

/-- Whether a word is read as itself after the token before it. -/
def Word.Fits (context : Context) : Word → Prop
  | .mark symbol => context = .operand → symbol ≠ .distinct ∧ symbol ≠ .unequal
  | .keyword _ => context ≠ .member
  | .name text => IsName text.toList ∧ (context = .member ∨ keyword? text.toList = none)
  | .numeral value => Number.fitsDigits value = true
  | .string _ => True

/-- Whether each word is read as itself after the word before it. -/
def Fit (context : Context) : List Word → Prop
  | [] => True
  | word :: rest => word.Fits context ∧ Fit word.terminal.next rest

theorem keyword?_of_name (text : String) (other : text ∉ keywords) :
    keyword? text.toList = none := by
  have apart : ∀ letters, String.ofList letters ∈ keywords → text.toList ≠ letters := by
    intro letters known same
    rw [← same, String.ofList_toList] at known
    exact other known
  unfold keyword?
  rw [if_neg (apart _ (by decide)), if_neg (apart _ (by decide)), if_neg (apart _ (by decide)),
    if_neg (apart _ (by decide))]

theorem constant_fits (value : Constant) (plain : PlainConstant value) :
    (constantWord value).Fits .operand ∧ (constantWord value).terminal.next = .operator := by
  cases value with
  | bool flag => cases flag <;> exact ⟨nofun, rfl⟩
  | number amount =>
    cases amount with
    | int value => exact ⟨plain.2, rfl⟩
    | float x => cases plain
  | text content => exact ⟨trivial, rfl⟩
  | _ => exact ⟨nofun, rfl⟩

theorem mark_fits (symbol : Symbol) (first : symbol ≠ .distinct) (second : symbol ≠ .unequal)
    (context : Context) : (Word.mark symbol).Fits context :=
  fun _ => ⟨first, second⟩

theorem enclosed_fit (least : Nat) (expr : Expr) (written after : List Word)
    (fit : ∀ rest, Fit .operator rest → Fit .operand (written ++ rest))
    (fitAfter : Fit .operator after) : Fit .operand (enclosed least expr written ++ after) := by
  unfold enclosed
  split
  · rw [List.cons_append, List.append_assoc]
    refine ⟨mark_fits _ (by decide) (by decide) _, ?_⟩
    exact fit _ ⟨mark_fits _ (by decide) (by decide) _, fitAfter⟩
  · exact fit after fitAfter

mutual

/-- An expression stands where an operand is due, and an operator is due after it. -/
theorem words_fit : ∀ (expr : Expr), Plain expr → ∀ after, Fit .operator after →
    Fit .operand (words expr ++ after)
  | .constant value, plain, after, fitAfter => by
    have own := constant_fits value plain
    rw [words, List.singleton_append]
    exact ⟨own.1, own.2 ▸ fitAfter⟩
  | .name text, plain, after, fitAfter => by
    rw [words, List.singleton_append]
    exact ⟨⟨plain.1, .inr (keyword?_of_name text plain.2)⟩, fitAfter⟩
  | .member target text, plain, after, fitAfter => by
    rw [words, List.append_assoc]
    apply enclosed_fit 8 target _ _ (words_fit target plain.1)
    exact ⟨mark_fits _ (by decide) (by decide) _, ⟨plain.2, .inl rfl⟩, fitAfter⟩
  | .index target key, plain, after, fitAfter => by
    rw [words, List.append_assoc, List.cons_append, List.append_assoc]
    apply enclosed_fit 8 target _ _ (words_fit target plain.1)
    refine ⟨mark_fits _ (by decide) (by decide) _, ?_⟩
    exact words_fit key plain.2 _ ⟨mark_fits _ (by decide) (by decide) _, fitAfter⟩
  | .unary op operand, plain, after, fitAfter => by
    rw [words]
    refine ⟨mark_fits _ (by cases op <;> decide) (by cases op <;> decide) _, ?_⟩
    have next : (Word.mark (unaryMark op)).terminal.next = .operand := by cases op <;> rfl
    rw [next]
    exact enclosed_fit 7 operand _ _ (words_fit operand plain) fitAfter
  | .binary op left right, plain, after, fitAfter => by
    rw [words, List.append_assoc]
    apply enclosed_fit _ left _ _ (words_fit left plain.1)
    refine ⟨nofun, ?_⟩
    have next : (Word.mark (binaryMark op)).terminal.next = .operand := by cases op <;> rfl
    rw [next]
    exact enclosed_fit _ right _ _ (words_fit right plain.2) fitAfter
  | .conditional test whenTrue whenFalse, plain, after, fitAfter => by
    rw [words, List.append_assoc, List.cons_append, List.append_assoc]
    apply enclosed_fit 1 test _ _ (words_fit test plain.1)
    refine ⟨mark_fits _ (by decide) (by decide) _, ?_⟩
    apply words_fit whenTrue plain.2.1
    refine ⟨mark_fits _ (by decide) (by decide) _, ?_⟩
    exact words_fit whenFalse plain.2.2 after fitAfter
  | .array items, plain, after, fitAfter => by
    rw [words, List.cons_append, List.append_assoc]
    refine ⟨mark_fits _ (by decide) (by decide) _, ?_⟩
    exact itemsWords_fit items plain after fitAfter

/-- The items of an array stand between its brackets. -/
theorem itemsWords_fit : ∀ (items : List Expr), ItemsPlain items → ∀ after, Fit .operator after →
    Fit .operand (itemsWords items ++ ([.mark .rightBracket] ++ after))
  | [], _, after, fitAfter => ⟨mark_fits _ (by decide) (by decide) _, fitAfter⟩
  | [item], plain, after, fitAfter => by
    rw [itemsWords]
    exact words_fit item plain.1 _ ⟨mark_fits _ (by decide) (by decide) _, fitAfter⟩
  | item :: next :: rest, plain, after, fitAfter => by
    rw [itemsWords, List.append_assoc]
    · apply words_fit item plain.1
      refine ⟨mark_fits _ (by decide) (by decide) _, ?_⟩
      exact itemsWords_fit (next :: rest) plain.2 after fitAfter
    · exact nofun

end

end Keymap.Expr
