import Keymap.Yaml.Scalar

/-!
Reading a value that is written on one line of YAML: a scalar, plain or in quotes, or a list or
mapping in brackets. Other forms count as malformed.
-/

set_option autoImplicit false

namespace Keymap.Yaml

/-- The rest of the line from the next token on; a comment ends it. -/
def skipSpace (text : List Char) : List Char :=
  match text.dropWhile fun c => c = ' ' with
  | '#' :: _ => []
  | rest => rest

def isFlowMark (c : Char) : Bool := c = ',' || c = '[' || c = ']' || c = '{' || c = '}'

def startsPlain (inBrackets : Bool) : List Char → Bool
  | [] => false
  | c :: rest =>
      if indicators.contains c then
        !startsBlank rest && (c = '-' || (!inBrackets && (c = '?' || c = ':')))
      else !isBlank c

def endsPlain (inBrackets : Bool) (c : Char) (rest : List Char) : Bool :=
  isBlank c || (inBrackets && (isFlowMark c || c = '?')) ||
    (c = ':' && (startsBlank rest || (inBrackets && (rest.head?.map isFlowMark).getD false)))

/-- The part of a plain scalar up to the next blank. -/
def plainRun (inBrackets : Bool) : List Char → List Char × List Char
  | [] => ([], [])
  | c :: rest =>
      if endsPlain inBrackets c rest then ([], c :: rest)
      else
        let (run, after) := plainRun inBrackets rest
        (c :: run, after)

/-- The text of a plain scalar; the blanks behind it do not belong to it. -/
def plainText (inBrackets : Bool) : Nat → List Char → List Char × List Char
  | 0, text => ([], text)
  | fuel + 1, text =>
      let (run, after) := plainRun inBrackets text
      let spaces := after.takeWhile fun c => c = ' '
      let next := after.dropWhile fun c => c = ' '
      if spaces.isEmpty || next.head? = some '#' then (run, next)
      else match plainText inBrackets fuel next with
        | ([], final) => (run, final)
        | (more, final) => (run ++ spaces ++ more, final)

/-- What a plain scalar stands for; reserved words stand for nothing. -/
def readPlain (inBrackets : Bool) (text : List Char) : Option (Value × List Char) :=
  let (content, rest) := plainText inBrackets (text.length + 1) text
  if reservedWords.contains (String.ofList content) then none
  else some ((meaning? content).getD (.text (String.ofList content)), rest)

/-- Between single quotes, a quote is written twice. -/
def singleQuoted : List Char → Option (List Char × List Char)
  | [] => none
  | '\'' :: '\'' :: rest => (singleQuoted rest).map fun (text, after) => ('\'' :: text, after)
  | '\'' :: rest => some ([], rest)
  | c :: rest => (singleQuoted rest).map fun (text, after) => (c :: text, after)

def escapes : List (Char × Char) :=
  [('0', '\x00'), ('a', '\x07'), ('b', '\x08'), ('t', '\t'), ('n', '\n'), ('v', '\x0b'),
   ('f', '\x0c'), ('r', '\r'), ('e', '\x1b'), (' ', ' '), ('"', '"'), ('\\', '\\'), ('/', '/'),
   ('N', '\u0085'), ('_', '\u00a0'), ('L', '\u2028'), ('P', '\u2029')]

/-- Letters of the escapes that give the code of a character, with the number of digits. -/
def codeEscapes : List (Char × Nat) := [('x', 2), ('u', 4), ('U', 8)]

def ofCode? (digits : List Char) : Option Char :=
  let code := runValue 16 digits
  if h : code.isValidChar then some (Char.ofNatAux code h) else none

def doubleQuoted : Nat → List Char → Option (List Char × List Char)
  | 0, _ => none
  | fuel + 1, text => match text with
    | [] => none
    | '"' :: rest => some ([], rest)
    | '\\' :: c :: rest => match escapes.lookup c with
      | some meant =>
          (doubleQuoted fuel rest).map fun (text, after) => (meant :: text, after)
      | none => do
          let width ← codeEscapes.lookup c
          let digits := rest.take width
          if digits.length = width && digits.all fun digit => (digitValue? 16 digit).isSome then
            let meant ← ofCode? digits
            let (text, after) ← doubleQuoted fuel (rest.drop width)
            some (meant :: text, after)
          else none
    | c :: rest => (doubleQuoted fuel rest).map fun (text, after) => (c :: text, after)

def readQuoted (quote : Char) (text : List Char) : Option (Value × List Char) := do
  let (content, rest) ← if quote = '"' then doubleQuoted (text.length + 1) text
    else singleQuoted text
  some (.text (String.ofList content), rest)

/-- The name that a key of a mapping gives its field. -/
def fieldName? : Value → Option String
  | .text content => some content
  | .null => some "null"
  | .bool flag => some (if flag then "true" else "false")
  | .number amount => some (amount.text ⟨"NaN", "Infinity"⟩)
  | _ => none

mutual

/-- Reads a value at the start of the text. -/
def readNode (inBrackets : Bool) : Nat → List Char → Option (Value × List Char)
  | 0, _ => none
  | fuel + 1, text => match text with
    | '[' :: rest => do
        let (items, after) ← readItems fuel (skipSpace rest)
        some (.list items, after)
    | '{' :: rest => do
        let (fields, after) ← readFields [] fuel (skipSpace rest)
        some (.object fields, after)
    | '\'' :: rest => readQuoted '\'' rest
    | '"' :: rest => readQuoted '"' rest
    | _ => if startsPlain inBrackets text then readPlain inBrackets text else none

/-- Reads what a colon may give a key; without a value the key has null. -/
def readGiven : Nat → List Char → Option (Value × List Char)
  | 0, _ => none
  | fuel + 1, text => match text with
    | ':' :: rest => match skipSpace rest with
      | ',' :: after => some (.null, ',' :: after)
      | ']' :: after => some (.null, ']' :: after)
      | '}' :: after => some (.null, '}' :: after)
      | next => readNode true fuel next
    | rest => some (.null, rest)

/-- Reads the items of a list; an item with a colon is a mapping of one field. -/
def readItems : Nat → List Char → Option (List Value × List Char)
  | 0, _ => none
  | fuel + 1, text => match text with
    | ']' :: rest => some ([], rest)
    | _ => do
        let (first, after) ← readNode true fuel text
        let next := skipSpace after
        let (item, rest) ← if next.head? = some ':' then do
            let name ← fieldName? first
            let (value, final) ← readGiven fuel next
            pure (Value.object [(name, value)], skipSpace final)
          else pure (first, next)
        match rest with
        | ',' :: others => do
            let (items, final) ← readItems fuel (skipSpace others)
            some (item :: items, final)
        | ']' :: final => some ([item], final)
        | _ => none

def readFields (known : Fields) : Nat → List Char → Option (Fields × List Char)
  | 0, _ => none
  | fuel + 1, text => match text with
    | '}' :: rest => some (known, rest)
    | _ => do
        let (key, after) ← readNode true fuel text
        let name ← fieldName? key
        let (value, rest) ← readGiven fuel (skipSpace after)
        let fields := known.insert name value
        match skipSpace rest with
        | ',' :: others => readFields fields fuel (skipSpace others)
        | '}' :: final => some (fields, final)
        | _ => none

end

/-- Characters that no text may hold. -/
def isForbidden (c : Char) : Bool :=
  (c.toNat < 0x20 && c ≠ '\t' && c ≠ '\n' && c ≠ '\r') ||
    (0x7f ≤ c.toNat && c.toNat < 0xa0 && c.toNat ≠ 0x85) || c.toNat = 0xfffe || c.toNat = 0xffff

/-- The value of a line; none if it is malformed. An empty line stands for null. -/
def read? (text : String) : Option Value :=
  let chars := text.toList
  if chars.any isForbidden then none
  else match skipSpace chars with
    | [] => some .null
    | start => do
        let (value, rest) ← readNode false (2 * chars.length + 2) start
        if (skipSpace rest).isEmpty then some value else none

end Keymap.Yaml
