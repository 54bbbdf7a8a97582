import Keymap.Expr.Basic
import Keymap.Number.Numeral

/-!
The tokens of expressions. What is a token depends on the one before it: where an operand is
due, an exclamation mark stands alone even before an equals sign; after an operand a point is a
point even before a digit; and after a point every word is a name. Blanks separate tokens and
have no other meaning.
-/

set_option autoImplicit false

namespace Keymap.Expr

inductive Symbol where
  | bang
  | colon
  | comma
  | dot
  | less
  | greater
  | leftParen
  | rightParen
  | leftBracket
  | rightBracket
  | minus
  | percent
  | plus
  | question
  | slash
  | star
  | or
  | and
  | identical
  | distinct
  | equal
  | unequal
  | atMost
  | atLeast
deriving DecidableEq, Repr

inductive Keyword where
  | true
  | false
  | null
  | undefined
deriving DecidableEq, Repr

inductive Terminal where
  | symbol (symbol : Symbol)
  | keyword (keyword : Keyword)
  | name
  | numeral
  | string
deriving DecidableEq, Repr

/-- The name of a terminal in messages. -/
def Terminal.label : Terminal → String
  | .symbol .bang => "BANG"
  | .symbol .colon => "COLON"
  | .symbol .comma => "COMMA"
  | .symbol .dot => "DOT"
  | .symbol .less => "LESSTHAN"
  | .symbol .greater => "MORETHAN"
  | .symbol .leftParen => "LPAR"
  | .symbol .rightParen => "RPAR"
  | .symbol .leftBracket => "LSQB"
  | .symbol .rightBracket => "RSQB"
  | .symbol .minus => "MINUS"
  | .symbol .percent => "PERCENT"
  | .symbol .plus => "PLUS"
  | .symbol .question => "QMARK"
  | .symbol .slash => "SLASH"
  | .symbol .star => "STAR"
  | .symbol .or => "__ANON_0"
  | .symbol .and => "__ANON_1"
  | .symbol .identical => "__ANON_2"
  | .symbol .distinct => "__ANON_3"
  | .symbol .equal => "__ANON_4"
  | .symbol .unequal => "__ANON_5"
  | .symbol .atMost => "__ANON_6"
  | .symbol .atLeast => "__ANON_7"
  | .keyword .true => "TRUE"
  | .keyword .false => "FALSE"
  | .keyword .null => "NULL"
  | .keyword .undefined => "UNDEFINED"
  | .name => "NAME"
  | .numeral => "NUMBER"
  | .string => "STRING"

/-- A place in the text; lines and columns count from one. -/
structure Position where
  line : Nat
  column : Nat
deriving DecidableEq, Repr

def Position.start : Position := ⟨1, 1⟩

def Position.after (position : Position) (c : Char) : Position :=
  if c = '\n' then ⟨position.line + 1, 1⟩ else ⟨position.line, position.column + 1⟩

structure Token where
  terminal : Terminal
  text : List Char
  position : Position
deriving DecidableEq, Repr

/-- What the text at hand is read as, given the token before it. -/
inductive Context where
  | operand
  | operator
  | member
deriving DecidableEq, Repr

def Terminal.next : Terminal → Context
  | .symbol .dot => .member
  | .symbol .rightParen => .operator
  | .symbol .rightBracket => .operator
  | .symbol _ => .operand
  | _ => .operator

def isSpace (c : Char) : Bool :=
  c = ' ' || c = '\t' || c = '\x0c' || c = '\r' || c = '\n'

def startsName (c : Char) : Bool :=
  ('a' ≤ c && c ≤ 'z') || ('A' ≤ c && c ≤ 'Z') || c = '_' || c = '$'

def continuesName (c : Char) : Bool := startsName c || ('0' ≤ c && c ≤ '9')

def keyword? (word : List Char) : Option Keyword :=
  if word = ['t', 'r', 'u', 'e'] then some .true
  else if word = ['f', 'a', 'l', 's', 'e'] then some .false
  else if word = ['n', 'u', 'l', 'l'] then some .null
  else if word = ['u', 'n', 'd', 'e', 'f', 'i', 'n', 'e', 'd'] then some .undefined
  else none

def wordTerminal (context : Context) (word : List Char) : Terminal :=
  if context = .member then .name
  else match keyword? word with
    | some keyword => .keyword keyword
    | none => .name

/-- The longest symbol at the start of the text, with its size. -/
def symbol? (context : Context) : List Char → Option (Symbol × Nat)
  | '!' :: rest =>
      if context = .operand then some (.bang, 1)
      else match rest with
        | '=' :: '=' :: _ => some (.distinct, 3)
        | '=' :: _ => some (.unequal, 2)
        | _ => some (.bang, 1)
  | '=' :: '=' :: '=' :: _ => some (.identical, 3)
  | '=' :: '=' :: _ => some (.equal, 2)
  | '<' :: '=' :: _ => some (.atMost, 2)
  | '>' :: '=' :: _ => some (.atLeast, 2)
  | '|' :: '|' :: _ => some (.or, 2)
  | '&' :: '&' :: _ => some (.and, 2)
  | '<' :: _ => some (.less, 1)
  | '>' :: _ => some (.greater, 1)
  | ':' :: _ => some (.colon, 1)
  | ',' :: _ => some (.comma, 1)
  | '.' :: _ => some (.dot, 1)
  | '(' :: _ => some (.leftParen, 1)
  | ')' :: _ => some (.rightParen, 1)
  | '[' :: _ => some (.leftBracket, 1)
  | ']' :: _ => some (.rightBracket, 1)
  | '-' :: _ => some (.minus, 1)
  | '%' :: _ => some (.percent, 1)
  | '+' :: _ => some (.plus, 1)
  | '?' :: _ => some (.question, 1)
  | '/' :: _ => some (.slash, 1)
  | '*' :: _ => some (.star, 1)
  | _ => none

open Keymap.Text (isDigit)

/-- An exponent at the start of the text; without digits there is none. -/
def exponentPart : List Char → List Char
  | [] => []
  | c :: rest =>
      if c = 'e' || c = 'E' then
        let (sign, unsigned) := match rest with
          | '+' :: after => (['+'], after)
          | '-' :: after => (['-'], after)
          | after => ([], after)
        match unsigned.takeWhile isDigit with
        | [] => []
        | digits => c :: sign ++ digits
      else []

/-- The numeral at the start of the text: digits with an optional fraction, or a fraction alone,
and an optional exponent. -/
def numeralPart (text : List Char) : List Char :=
  let whole := text.takeWhile isDigit
  let afterWhole := text.drop whole.length
  let fraction := match afterWhole with
    | '.' :: rest =>
        let digits := rest.takeWhile isDigit
        if whole.isEmpty && digits.isEmpty then [] else '.' :: digits
    | _ => []
  if whole.isEmpty && fraction.isEmpty then []
  else whole ++ fraction ++ exponentPart (afterWhole.drop fraction.length)

/-- The rest of a string up to its closing quote. A backslash takes the character after it
along, which may be anything but a line end. -/
def stringPart (quote : Char) : List Char → Option (List Char)
  | [] => none
  | [c] => if c = quote then some [c] else none
  | c :: d :: rest =>
      if c = quote then some [c]
      else if c = '\\' then
        if d = '\n' then none else (stringPart quote rest).map fun part => c :: d :: part
      else (stringPart quote (d :: rest)).map (c :: ·)

/-- The rest of a string in back quotes, in which nothing is escaped. -/
def rawStringPart : List Char → Option (List Char)
  | [] => none
  | c :: rest => if c = '\x60' then some [c] else (rawStringPart rest).map (c :: ·)

def string? : List Char → Option (List Char)
  | '"' :: rest => (stringPart '"' rest).map ('"' :: ·)
  | '\'' :: rest => (stringPart '\'' rest).map ('\'' :: ·)
  | '\x60' :: rest => (rawStringPart rest).map ('\x60' :: ·)
  | _ => none

/-- The token at the start of a text that does not start with a blank: its terminal and its
characters. -/
def scan? (context : Context) (text : List Char) : Option (Terminal × List Char) :=
  match text with
  | [] => none
  | c :: rest =>
      if startsName c then
        let word := c :: rest.takeWhile continuesName
        some (wordTerminal context word, word)
      else match string? text with
        | some part => some (.string, part)
        | none =>
            let numeral := if c = '.' && context = .operator then [] else numeralPart text
            if numeral.isEmpty then
              (symbol? context text).map fun (symbol, size) => (.symbol symbol, text.take size)
            else some (.numeral, numeral)

/-- A token, or a character at which no token starts. -/
inductive Lexeme where
  | token (token : Token)
  | stray (c : Char) (position : Position)
deriving DecidableEq, Repr

/-- The tokens of a text, up to the first character that starts none. `skip` counts the
characters at hand that belong to the token before. -/
def lexFrom (skip : Nat) (context : Context) (position : Position) :
    List Char → List Lexeme
  | [] => []
  | c :: rest => match skip with
    | skip + 1 => lexFrom skip context (position.after c) rest
    | 0 =>
        if isSpace c then lexFrom 0 context (position.after c) rest
        else match scan? context (c :: rest) with
          | none => [.stray c position]
          | some (terminal, text) =>
              .token ⟨terminal, text, position⟩ ::
                lexFrom (text.length - 1) terminal.next (position.after c) rest

def lex (text : List Char) : List Lexeme := lexFrom 0 .operand .start text

end Keymap.Expr
