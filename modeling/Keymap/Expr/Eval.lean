import Keymap.Expr.Basic
import Keymap.Value.Display
import Keymap.Value.Json
import Keymap.Number.Numeral

/-!
Evaluation of expressions in a scope of named values. Names, members and items that are not
there evaluate to `undefined`; only the members of null and undefined, numbers where there are
none, and arithmetic out of range fail.
-/

set_option autoImplicit false

namespace Keymap

/-- Why an expression has no value. -/
inductive EvalError where
  | notNumber (text : String)
  | noMember (key target : String)
  | number (fault : Number.Fault)
deriving DecidableEq, Repr

def EvalError.message : EvalError → String
  | .notNumber text => Text.quoted text ++ " is not a number"
  | .noMember key target => "cannot read property '" ++ key ++ "' of " ++ target
  | .number fault => fault.message

namespace Value

/-- The text of a number that is spliced: doubles that equal an integer are written as one. -/
def spliceNumber : Number → Except Number.Fault String
  | .int value =>
      if Number.fitsDigits value then .ok (Number.intText value) else .error .tooManyDigits
  | .float x => match Number.wholeValue? x with
    | some value => .ok (Number.intText value)
    | none => .ok (Number.floatText messageWords x)

mutual

/-- The text that a value is spliced as into a template. -/
def splice : Value → Except Number.Fault String
  | .undefined => .ok "undefined"
  | .null => .ok "null"
  | .bool true => .ok "true"
  | .bool false => .ok "false"
  | .number amount => spliceNumber amount
  | .text content => .ok content
  | .list items => do return Text.joined "," (← spliceItems items)
  | .object fields =>
      if fitsDigits (.object fields) then .ok (Json.render Json.spaced (.object fields))
      else .error .tooManyDigits

/-- Null leaves an empty place in a list. -/
def spliceItems : List Value → Except Number.Fault (List String)
  | [] => .ok []
  | item :: rest => do
      let text ← match item with
        | .null => .ok ""
        | other => splice other
      return text :: (← spliceItems rest)

end

def spliced (value : Value) : Except EvalError String := value.splice.mapError .number

/-- Nought, not-a-number, the empty text, null and undefined do not hold. -/
def holds : Value → Except EvalError Bool
  | .undefined => .ok false
  | .null => .ok false
  | .bool flag => .ok flag
  | .number (.int value) =>
      if value = 0 then .ok false
      else (Number.toFloat (.int value)).mapError EvalError.number |>.map fun _ => true
  | .number (.float x) =>
      .ok (!(Number.isZero (.float x)) && !(Number.isNaN (.float x)))
  | .text content => .ok (content ≠ "")
  | .list _ => .ok true
  | .object _ => .ok true

/-- The number that a value counts as in arithmetic. -/
def numeric? : Value → Option Number
  | .bool flag => some (.int (if flag then 1 else 0))
  | .number amount => some amount
  | .null => some (.int 0)
  | .text content => Number.ofText? content
  | _ => none

def numeric (value : Value) : Except EvalError Number :=
  match value.numeric? with
  | some amount => .ok amount
  | none => do throw (.notNumber (← value.spliced))

def isScalar : Value → Bool
  | .bool _ => true
  | .number _ => true
  | .text _ => true
  | _ => false

/-- Equality that converts: null and undefined are equal, and unlike scalars compare as
numbers. -/
def looselyEqual (left right : Value) : Bool :=
  if left.isNothing || right.isNothing then left.isNothing && right.isNothing
  else match left, right with
    | .text a, .text b => a == b
    | _, _ =>
        if left.isScalar && right.isScalar then
          match left.numeric?, right.numeric? with
          | some a, some b => a.equals b
          | _, _ => false
        else left.agrees right

/-- Equality of values of one kind. Integers and doubles are one kind; truth values are not
numbers, except inside lists and mappings. -/
def strictlyEqual : Value → Value → Bool
  | .undefined, .undefined => true
  | .null, .null => true
  | .bool a, .bool b => a == b
  | .number a, .number b => a.equals b
  | .text a, .text b => a == b
  | .list a, .list b => itemsAgree a b
  | .object a, .object b => (Value.object a).agrees (.object b)
  | _, _ => false

def isTextOrList : Value → Bool
  | .text _ => true
  | .list _ => true
  | _ => false

/-- The place that a number is in a sequence of the given size, if it is one. -/
def place? (size : Nat) (key : Number) : Except Number.Fault (Option Nat) := do
  let whole ← key.truncate
  if key.equals (.int whole) && 0 ≤ whole && whole < size then return some whole.toNat
  else return none

/-- The member of a value. Lists and texts have a length and items; mappings have fields, named
by the spliced text of the key. -/
def member (target key : Value) : Except EvalError Value := do
  if target.isNothing then
    let keyText ← key.spliced
    let targetText ← target.spliced
    throw (.noMember keyText targetText)
  match target with
  | .object fields => return (Fields.get? (← key.spliced) fields).getD .undefined
  | .list items => match key with
    | .text "length" => return ofInt items.length
    | .number amount => match ← (place? items.length amount).mapError .number with
      | some index => return items.getD index .undefined
      | none => return .undefined
    | _ => return .undefined
  | .text content => match key with
    | .text "length" => return ofInt content.length
    | .number amount => match ← (place? content.length amount).mapError .number with
      | some index => match content.toList[index]? with
        | some c => return .text (String.ofList [c])
        | none => return .undefined
      | none => return .undefined
    | _ => return .undefined
  | _ => return .undefined

end Value

namespace Expr

inductive Comparison where
  | less
  | atMost
  | greater
  | atLeast

def Comparison.ofTexts (left right : String) : Comparison → Bool
  | .less => left < right
  | .atMost => left ≤ right
  | .greater => right < left
  | .atLeast => right ≤ left

def Comparison.ofNumbers (left right : Number) : Comparison → Bool
  | .less => left.less right
  | .atMost => left.atMost right
  | .greater => right.less left
  | .atLeast => right.atMost left

/-- Two texts compare by code points, anything else as numbers. -/
def compare (comparison : Comparison) (left right : Value) : Except EvalError Value :=
  match left, right with
  | .text a, .text b => .ok (.bool (comparison.ofTexts a b))
  | _, _ => do
      let a ← left.numeric
      let b ← right.numeric
      return .bool (comparison.ofNumbers a b)

def arithmetic (operation : Number → Number → Except Number.Fault Number)
    (left right : Value) : Except EvalError Value := do
  let a ← left.numeric
  let b ← right.numeric
  return .number (← (operation a b).mapError .number)

/-- Addition concatenates when either side is a text or a list. -/
def plus (left right : Value) : Except EvalError Value :=
  if left.isTextOrList || right.isTextOrList then do
    let a ← left.spliced
    let b ← right.spliced
    return .text (a ++ b)
  else arithmetic Number.add left right

def applyUnary : UnaryOp → Value → Except EvalError Value
  | .not, operand => do return .bool !(← operand.holds)
  | .minus, operand => do return .number (← operand.numeric).neg
  | .plus, operand => do return .number (← operand.numeric)

/-- The operators that take both operands. -/
def applyBinary (left right : Value) : BinaryOp → Except EvalError Value
  | .or => .ok right
  | .and => .ok right
  | .identical => .ok (.bool (left.strictlyEqual right))
  | .distinct => .ok (.bool !(left.strictlyEqual right))
  | .equal => .ok (.bool (left.looselyEqual right))
  | .unequal => .ok (.bool !(left.looselyEqual right))
  | .atMost => compare .atMost left right
  | .atLeast => compare .atLeast left right
  | .less => compare .less left right
  | .greater => compare .greater left right
  | .add => plus left right
  | .sub => arithmetic Number.sub left right
  | .mul => arithmetic Number.mul left right
  | .div => arithmetic Number.div left right
  | .mod => arithmetic Number.mod left right

/-- Whether the left operand of a logical operator is its value. -/
def settles (op : BinaryOp) (left : Value) : Except EvalError Bool :=
  match op with
  | .or => left.holds
  | .and => do return !(← left.holds)
  | _ => .ok false

mutual

def evaluate (scope : Fields) : Expr → Except EvalError Value
  | .constant leaf => .ok leaf.value
  | .name known => .ok ((scope.get? known).getD .undefined)
  | .member target known => do (← evaluate scope target).member (.text known)
  | .index target key => do
      let value ← evaluate scope target
      value.member (← evaluate scope key)
  | .unary op operand => do applyUnary op (← evaluate scope operand)
  | .binary op left right => do
      let first ← evaluate scope left
      if ← settles op first then return first
      applyBinary first (← evaluate scope right) op
  | .conditional test whenTrue whenFalse => do
      if ← (← evaluate scope test).holds then evaluate scope whenTrue
      else evaluate scope whenFalse
  | .array items => do return .list (← evaluateItems scope items)

def evaluateItems (scope : Fields) : List Expr → Except EvalError (List Value)
  | [] => .ok []
  | item :: rest => do
      let first ← evaluate scope item
      return first :: (← evaluateItems scope rest)

end

end Expr

end Keymap
