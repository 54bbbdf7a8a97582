import Keymap.Expr.Token
import Keymap.Text.Quoted

/-!
Reading expressions. The reader keeps a stack of the constructs that still wait for an operand
and takes one token at a time; an operator first closes the constructs that bind at least as
tightly. The first token that no expression can hold at its place is reported.
-/

set_option autoImplicit false

namespace Keymap.Expr

/-- Why a text is not an expression. -/
inductive Rejection where
  | assignment
  | unexpected (label : String) (text : String) (position : Position)
  | stray (c : Char) (position : Position)
  | tooDeep
  /-- An integer of more digits than are read. It is not reported like the others. -/
  | overlong (digits : Nat)
deriving DecidableEq, Repr

/-- What waits for the operand that is being read. -/
inductive Frame where
  | unary (op : UnaryOp)
  | binary (op : BinaryOp) (left : Expr)
  | group
  /-- An array with the items read so far, the last one first. -/
  | array (items : List Expr)
  | index (target : Expr)
  | whenTrue (test : Expr)
  | whenFalse (test whenTrue : Expr)

abbrev Stack := List Frame

inductive Stage where
  /-- An operand is due. -/
  | operand (stack : Stack)
  /-- An array has just been opened: an operand is due, or its end. -/
  | opened (stack : Stack)
  | complete (stack : Stack) (operand : Expr)
  /-- The name of a member is due. -/
  | member (stack : Stack) (target : Expr)

/-- Closes the unary operators, the binary operators of at least the given level and, at level
nought, the conditionals whose last branch has been read. -/
def collapse (level : Nat) : Stack → Expr → Stack × Expr
  | .unary op :: stack, operand => collapse level stack (.unary op operand)
  | .binary op left :: stack, operand =>
      if level ≤ op.level then collapse level stack (.binary op left operand)
      else (.binary op left :: stack, operand)
  | .whenFalse test whenTrue :: stack, operand =>
      if level = 0 then collapse level stack (.conditional test whenTrue operand)
      else (.whenFalse test whenTrue :: stack, operand)
  | stack, operand => (stack, operand)

def unaryOp? : Symbol → Option UnaryOp
  | .bang => some .not
  | .minus => some .minus
  | .plus => some .plus
  | _ => none

def binaryOp? : Symbol → Option BinaryOp
  | .or => some .or
  | .and => some .and
  | .identical => some .identical
  | .distinct => some .distinct
  | .equal => some .equal
  | .unequal => some .unequal
  | .atMost => some .atMost
  | .atLeast => some .atLeast
  | .less => some .less
  | .greater => some .greater
  | .plus => some .add
  | .minus => some .sub
  | .star => some .mul
  | .slash => some .div
  | .percent => some .mod
  | _ => none

def Keyword.constant : Keyword → Constant
  | .true => .bool Bool.true
  | .false => .bool Bool.false
  | .null => .null
  | .undefined => .undefined

/-- A backslash stands for nothing itself; four letters after it mean a control character. -/
def unescape : List Char → List Char
  | '\\' :: c :: rest =>
      let meant := match c with
        | 'n' => '\n'
        | 't' => '\t'
        | 'r' => '\r'
        | '0' => '\x00'
        | other => other
      meant :: unescape rest
  | c :: rest => c :: unescape rest
  | [] => []

/-- The content of a string token. -/
def stringContent (text : List Char) : String :=
  let body := (text.drop 1).dropLast
  String.ofList (if text.head? = some '\x60' then body else unescape body)

/-- The number of a numeral token: an integer if it is all digits, else the nearest double. -/
def numeralValue (text : List Char) : Number :=
  if text.all Keymap.Text.isDigit then
    .int (Number.ofDigits (text.filterMap Keymap.Text.digitValue?))
  else .float ((Number.readUnsignedFloat? Bool.false text).getD 0)

/-- The operand that a token is by itself. -/
def leaf? (token : Token) : Option Expr :=
  match token.terminal with
  | .name => some (.name (String.ofList token.text))
  | .numeral => some (.constant (.number (numeralValue token.text)))
  | .string => some (.constant (.text (stringContent token.text)))
  | .keyword keyword => some (.constant keyword.constant)
  | .symbol _ => none

def stepOperand (stack : Stack) (token : Token) : Option Stage :=
  match token.terminal with
  | .symbol .leftParen => some (.operand (.group :: stack))
  | .symbol .leftBracket => some (.opened (.array [] :: stack))
  | .symbol symbol => (unaryOp? symbol).map fun op => .operand (.unary op :: stack)
  | _ => (leaf? token).map (.complete stack)

def stepComplete (stack : Stack) (operand : Expr) : Symbol → Option Stage
  | .dot => some (.member stack operand)
  | .leftBracket => some (.operand (.index operand :: stack))
  | .question =>
      let (waiting, test) := collapse 1 stack operand
      some (.operand (.whenTrue test :: waiting))
  | .colon => match collapse 0 stack operand with
    | (.whenTrue test :: outer, closed) => some (.operand (.whenFalse test closed :: outer))
    | _ => none
  | .comma => match collapse 0 stack operand with
    | (.array items :: outer, closed) => some (.operand (.array (closed :: items) :: outer))
    | _ => none
  | .rightParen => match collapse 0 stack operand with
    | (.group :: outer, closed) => some (.complete outer closed)
    | _ => none
  | .rightBracket => match collapse 0 stack operand with
    | (.array items :: outer, closed) =>
        some (.complete outer (.array (closed :: items).reverse))
    | (.index target :: outer, closed) => some (.complete outer (.index target closed))
    | _ => none
  | symbol => (binaryOp? symbol).map fun op =>
      let (waiting, left) := collapse op.level stack operand
      .operand (.binary op left :: waiting)

/-- What one token does; none if no expression can go on with it. -/
def step : Stage → Token → Option Stage
  | .operand stack, token => stepOperand stack token
  | .opened stack, token => match token.terminal, stack with
    | .symbol .rightBracket, .array items :: outer => some (.complete outer (.array items.reverse))
    | _, _ => stepOperand stack token
  | .complete stack operand, token => match token.terminal with
    | .symbol symbol => stepComplete stack operand symbol
    | _ => none
  | .member stack target, token => match token.terminal with
    | .name => some (.complete stack (.member target (String.ofList token.text)))
    | _ => none

/-- The expression that is complete at the end of the text. -/
def finish? : Stage → Option Expr
  | .complete stack operand => match collapse 0 stack operand with
    | ([], expr) => some expr
    | _ => none
  | _ => none

/-- Reads the tokens on from a stage. `last` is where the token before stands. -/
def run (last : Position) : Stage → List Lexeme → Except Rejection Expr
  | stage, [] => match finish? stage with
    | some expr => .ok expr
    | none => .error (.unexpected "$END" "" last)
  | _, .stray c position :: _ => .error (.stray c position)
  | stage, .token token :: rest => match step stage token with
    | some next => run token.position next rest
    | none =>
        .error (.unexpected token.terminal.label (String.ofList token.text) token.position)

/-- Expressions of more levels are refused. -/
def maxDepth : Nat := 900

/-- The digits of the first integer with too many of them. -/
def overlong? (lexemes : List Lexeme) : Option Nat :=
  lexemes.findSome? fun
    | .token token =>
        if token.terminal = .numeral && token.text.all Keymap.Text.isDigit &&
            Number.maxDigits < token.text.length then some token.text.length
        else none
    | .stray .. => none

/-- Whether an equals sign stands alone, that is without `=`, `!`, `<` or `>` before it and
without `=` or `>` after it. Strings are no exception. -/
def assignsAfter (previous : Option Char) : List Char → Bool
  | [] => Bool.false
  | c :: rest =>
      (c = '=' && !(previous.map fun p => p = '!' || p = '=' || p = '<' || p = '>').getD Bool.false &&
        !(rest.head?.map fun n => n = '=' || n = '>').getD Bool.false) ||
      assignsAfter (some c) rest

def assigns (text : List Char) : Bool := assignsAfter none text

def parse (text : List Char) : Except Rejection Expr :=
  if assigns text then .error .assignment
  else
    let lexemes := lex text
    match run .start (.operand []) lexemes with
    | .error rejection => .error rejection
    | .ok expr =>
        if maxDepth < expr.depth then .error .tooDeep
        else match overlong? lexemes with
          | some digits => .error (.overlong digits)
          | none => .ok expr

/-- The first line of a text; the text is trimmed before it is cut. -/
def firstLine (text : List Char) : List Char :=
  (Keymap.Text.trim text).takeWhile fun c => !Keymap.Text.endsLine c

def Position.shown (position : Position) (columnWord : String) : String :=
  "line " ++ Number.intText position.line ++ columnWord ++ Number.intText position.column

def unparsed (source : String) (reason : String) : String :=
  "could not parse expression " ++ Keymap.Text.quoted source ++ ": " ++
    String.ofList (firstLine reason.toList)

def Rejection.message (source : String) : Rejection → String
  | .assignment =>
      "expressions cannot assign: found an isolated '=' in " ++ Keymap.Text.quoted source
  | .unexpected label text position =>
      unparsed source ("Unexpected token Token('" ++ label ++ "', " ++ Keymap.Text.quoted text ++
        ") at " ++ position.shown ", column " ++ ".")
  | .stray c position =>
      unparsed source ("No terminal matches '" ++ String.ofList [c] ++
        "' in the current parser context, at " ++ position.shown " col ")
  | .tooDeep =>
      "expression is nested too deeply (" ++ Number.intText source.length ++ " characters)"
  | .overlong digits => Number.overlongMessage digits

end Keymap.Expr
