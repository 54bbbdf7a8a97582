import Keymap.Proofs.Expr.Rendering

/-!
The language of expressions, told apart from its reader. Each terminal has its own form; at each
place the longest of the terminals that are due there is taken (`Leads`), and a text of such tokens
with blanks between them (`Lexes`) is an expression if the grammar derives its tokens (`Derives`).
-/

set_option autoImplicit false

namespace Keymap.Expr

/-- A token by what it is and how it is written, wherever it stands. -/
structure Piece where
  terminal : Terminal
  text : List Char
deriving DecidableEq

def Piece.mark (symbol : Symbol) : Piece := ⟨.symbol symbol, symbol.text⟩

section Terminals

def IsDigits (text : List Char) : Prop := text ≠ [] ∧ ∀ c ∈ text, Text.isDigit c = true

/-- Digits, digits with a point and perhaps a fraction, or a fraction alone. -/
inductive IsMantissa : List Char → Prop
  | whole {digits : List Char} (held : IsDigits digits) : IsMantissa digits
  | pointed {digits fraction : List Char} (held : IsDigits digits)
      (each : ∀ c ∈ fraction, Text.isDigit c = true) : IsMantissa (digits ++ '.' :: fraction)
  | fraction {digits : List Char} (held : IsDigits digits) : IsMantissa ('.' :: digits)

inductive IsExponent : List Char → Prop
  | nothing : IsExponent []
  | power {letter : Char} {sign digits : List Char} (letters : letter ∈ ['e', 'E'])
      (signs : sign ∈ [[], ['+'], ['-']]) (held : IsDigits digits) :
      IsExponent (letter :: (sign ++ digits))

def IsNumeral (text : List Char) : Prop :=
  ∃ mantissa exponent, text = mantissa ++ exponent ∧ IsMantissa mantissa ∧ IsExponent exponent

/-- What stands between two quotes: a backslash takes the character after it along, which may be
anything but a line end. -/
inductive IsQuotable (quote : Char) : List Char → Prop
  | nothing : IsQuotable quote []
  | plain {c : Char} {rest : List Char} (inside : c ≠ quote) (unescaped : c ≠ '\\')
      (more : IsQuotable quote rest) : IsQuotable quote (c :: rest)
  | escaped {c : Char} {rest : List Char} (inLine : c ≠ '\n') (more : IsQuotable quote rest) :
      IsQuotable quote ('\\' :: c :: rest)

inductive IsString : List Char → Prop
  | quoted {quote : Char} {body : List Char} (quotes : quote ∈ ['"', '\''])
      (held : IsQuotable quote body) : IsString (quote :: (body ++ [quote]))
  | raw {body : List Char} (held : '\x60' ∉ body) : IsString ('\x60' :: (body ++ ['\x60']))

/-- The texts that a terminal stands for. -/
def Terminal.Matches : Terminal → List Char → Prop
  | .symbol mark, text => text = mark.text
  | .keyword known, text => text = known.text
  | .name, text => IsName text
  | .numeral, text => IsNumeral text
  | .string, text => IsString text

end Terminals

/-- The terminals that are tried at a place: where an operand is due the operands, what opens one,
and the end of an empty array; after an operand every symbol but the exclamation mark alone; after
a point a name. -/
def Terminal.Due : Context → Terminal → Prop
  | .operand, .symbol mark =>
      mark ∈ [.bang, .minus, .plus, .leftParen, .leftBracket, .rightBracket]
  | .operand, _ => True
  | .operator, .symbol mark => mark ≠ .bang
  | .operator, _ => False
  | .member, terminal => terminal = .name

theorem due_operator {mark : Symbol} (noBang : mark ≠ .bang) :
    (Terminal.symbol mark).Due .operator := noBang

/-- A token is read before the rest of a text: no longer token that is due starts there, and a name
is no keyword that is due. -/
structure Leads (context : Context) (piece : Piece) (rest : List Char) : Prop where
  due : piece.terminal.Due context
  fits : piece.terminal.Matches piece.text
  longest : ∀ (terminal : Terminal) (text : List Char), terminal.Due context →
    terminal.Matches text → text <+: piece.text ++ rest → text.length ≤ piece.text.length
  unreserved : ∀ known : Keyword, (Terminal.keyword known).Due context →
    piece.terminal = .name → piece.text ≠ known.text

/-- A text is these tokens, with blanks before, between and after them. -/
inductive Lexes : Context → List Char → List Piece → Prop
  | nothing (context : Context) : Lexes context [] []
  | blank {context : Context} {c : Char} {rest : List Char} {pieces : List Piece}
      (space : isSpace c = true) (more : Lexes context rest pieces) :
      Lexes context (c :: rest) pieces
  | piece {context : Context} {piece : Piece} {rest : List Char} {pieces : List Piece}
      (leads : Leads context piece rest) (more : Lexes piece.terminal.next rest pieces) :
      Lexes context (piece.text ++ rest) (piece :: pieces)

mutual

/-- The grammar. A level is what binds at least so tightly: 0 is any expression, 1 to 6 are the
binary operators by their levels, 7 the unary ones, 8 members and items, 9 what stands by itself. -/
inductive Derives : Nat → List Piece → Expr → Prop
  | tighter {level : Nat} {pieces : List Piece} {expr : Expr}
      (derives : Derives (level + 1) pieces expr) : Derives level pieces expr
  | conditional {first second third : List Piece} {test whenTrue whenFalse : Expr}
      (derivesTest : Derives 1 first test) (derivesTrue : Derives 0 second whenTrue)
      (derivesFalse : Derives 0 third whenFalse) :
      Derives 0 (first ++ .mark .question :: (second ++ .mark .colon :: third))
        (.conditional test whenTrue whenFalse)
  | binary {front back : List Piece} {left right : Expr} (op : BinaryOp)
      (derivesLeft : Derives op.level front left)
      (derivesRight : Derives (op.level + 1) back right) :
      Derives op.level (front ++ .mark (binaryMark op) :: back) (.binary op left right)
  | unary {pieces : List Piece} {operand : Expr} (op : UnaryOp)
      (derives : Derives 7 pieces operand) :
      Derives 7 (.mark (unaryMark op) :: pieces) (.unary op operand)
  | member {pieces : List Piece} {target : Expr} (name : List Char)
      (derives : Derives 8 pieces target) :
      Derives 8 (pieces ++ [.mark .dot, ⟨.name, name⟩]) (.member target (String.ofList name))
  | index {front inner : List Piece} {target key : Expr} (derives : Derives 8 front target)
      (derivesKey : Derives 0 inner key) :
      Derives 8 (front ++ .mark .leftBracket :: (inner ++ [.mark .rightBracket]))
        (.index target key)
  | numeral (text : List Char) :
      Derives 9 [⟨.numeral, text⟩] (.constant (.number (numeralValue text)))
  | string (text : List Char) :
      Derives 9 [⟨.string, text⟩] (.constant (.text (stringContent text)))
  | keyword (known : Keyword) :
      Derives 9 [⟨.keyword known, known.text⟩] (.constant known.constant)
  | name (text : List Char) : Derives 9 [⟨.name, text⟩] (.name (String.ofList text))
  | array {inner : List Piece} {items : List Expr} (lists : Lists inner items) :
      Derives 9 (.mark .leftBracket :: (inner ++ [.mark .rightBracket])) (.array items)
  | group {inner : List Piece} {expr : Expr} (derives : Derives 0 inner expr) :
      Derives 9 (.mark .leftParen :: (inner ++ [.mark .rightParen])) expr

/-- The items of an array, with commas between them. -/
inductive Lists : List Piece → List Expr → Prop
  | nothing : Lists [] []
  | last {pieces : List Piece} {item : Expr} (derives : Derives 0 pieces item) :
      Lists pieces [item]
  | more {front back : List Piece} {item : Expr} {items : List Expr}
      (derives : Derives 0 front item) (lists : Lists back items) (held : items ≠ []) :
      Lists (front ++ .mark .comma :: back) (item :: items)

end

theorem Derives.lower {least bound : Nat} {pieces : List Piece} {expr : Expr}
    (derives : Derives bound pieces expr) (atMost : least ≤ bound) :
    Derives least pieces expr := by
  obtain ⟨more, rfl⟩ := Nat.exists_eq_add_of_le atMost
  induction more with
  | zero => exact derives
  | succ more ih => exact ih (.tighter derives) (Nat.le_add_right _ _)

end Keymap.Expr
