import Keymap.Expr.Parser
import Keymap.Expr.Eval
import Keymap.Noted

/-!
Templates: text with expressions between double braces. Every expression that has a value is
replaced by the value's text; the others stay as they are written and leave a complaint.
Complaints are collected until they are reported.
-/

set_option autoImplicit false

namespace Keymap

/-- A number that is too long to be read or written ends the whole run. -/
inductive Overlong where
  | read (digits : Nat)
  | written
deriving DecidableEq, Repr

def Overlong.message : Overlong → String
  | .read digits => Number.overlongMessage digits
  | .written => Number.Fault.tooManyDigits.message

/-- Why an expression failed. -/
inductive Failure where
  | rejected (source : String) (rejection : Expr.Rejection)
  | failed (error : EvalError)
deriving DecidableEq, Repr

def Failure.message : Failure → String
  | .rejected source rejection => rejection.message source
  | .failed error => error.message

/-- What is remembered of an expression without a value. -/
inductive Complaint where
  | evaluation (source : String) (failure : Failure)
  /-- A span of a template; without a failure its expression was undefined. -/
  | span (written whole : String) (failure : Option Failure)
deriving DecidableEq, Repr

def Complaint.message : Complaint → String
  | .evaluation source failure => "Error evaluating " ++ source ++ ": " ++ failure.message
  | .span written whole failure =>
      "The expression " ++ written ++ ", found in " ++ whole ++ ", could not be evaluated" ++
        match failure with
        | some failure => ": " ++ failure.message
        | none => "."

/-- Evaluates a text as an expression. -/
def Expr.valueOf (source : String) (scope : Fields) : Except Overlong (Except Failure Value) :=
  match Expr.parse source.toList with
  | .error (.overlong digits) => .error (.read digits)
  | .error rejection => .ok (.error (.rejected source rejection))
  | .ok expr => .ok ((expr.evaluate scope).mapError .failed)

namespace Template

/-- A template is plain text and spans in turn. -/
inductive Segment where
  | plain (text : List Char)
  | span (inner : List Char)
deriving DecidableEq, Repr

/-- Where the scan stands: outside of spans or in one, with what was passed since, the last
character first. -/
inductive Scan where
  | outside (passed : List Char)
  | inside (passed : List Char)

/-- Cuts a text into segments. A span reaches from two opening braces to the next two closing
ones; braces that are never closed are plain text. -/
def cut : Scan → List Char → List Segment
  | .outside passed, [] => [.plain passed.reverse]
  | .inside passed, [] => [.plain ('{' :: '{' :: passed.reverse)]
  | .outside passed, '{' :: '{' :: rest => .plain passed.reverse :: cut (.inside []) rest
  | .inside passed, '}' :: '}' :: rest => .span passed.reverse :: cut (.outside []) rest
  | .outside passed, c :: rest => cut (.outside (c :: passed)) rest
  | .inside passed, c :: rest => cut (.inside (c :: passed)) rest

def segments (text : List Char) : List Segment := cut (.outside []) text

def Segment.written : Segment → List Char
  | .plain text => text
  | .span inner => '{' :: '{' :: inner ++ ['}', '}']

end Template

abbrev Filling (Result : Type) := Noted Complaint Overlong Result

namespace Template

/-- The text that one segment becomes, and the complaint it leaves. -/
def fillSegment (whole : String) (scope : Fields) : Segment → Filling (List Char)
  | .plain text => .done text
  | .span inner =>
      let written := (Segment.span inner).written
      let kept (failure : Option Failure) : Filling (List Char) :=
        ⟨[.span (String.ofList written) whole failure], .ok written⟩
      match Expr.valueOf (String.ofList (Text.trim inner)) scope with
      | .error overlong => .fail overlong
      | .ok (.error failure) => kept (some failure)
      | .ok (.ok .undefined) => kept none
      | .ok (.ok value) => match value.splice with
        | .ok text => .done text.toList
        | .error _ => .fail .written

def fillSegments (whole : String) (scope : Fields) : List Segment → Filling (List Char)
  | [] => .done []
  | segment :: rest => do
      let text ← fillSegment whole scope segment
      let texts ← fillSegments whole scope rest
      return text ++ texts

/-- Fills the spans of a text from left to right. Text that was spliced is not scanned again. -/
def fill (scope : Fields) (text : String) : Filling String := do
  return String.ofList (← fillSegments text scope (segments text.toList))

end Template

namespace Value

mutual

/-- Fills every text inside a value; the names of fields stay. -/
def fill (scope : Fields) : Value → Filling Value
  | .text content => do return .text (← Template.fill scope content)
  | .list items => do return .list (← fillItems scope items)
  | .object fields => do return .object (← fillFields scope fields)
  | value => .done value

def fillItems (scope : Fields) : List Value → Filling (List Value)
  | [] => .done []
  | item :: rest => do
      let first ← fill scope item
      return first :: (← fillItems scope rest)

def fillFields (scope : Fields) : List (String × Value) → Filling Fields
  | [] => .done []
  | (name, value) :: rest => do
      let first ← fill scope value
      return (name, first) :: (← fillFields scope rest)

end

end Value

/-- The complaints of one run, and how many of them a report shows. -/
structure Evaluator where
  limit : Int
  pending : List Complaint

namespace Evaluator

def new (limit : Int) : Evaluator := ⟨limit, []⟩

def note (evaluator : Evaluator) (complaints : List Complaint) : Evaluator :=
  { evaluator with pending := evaluator.pending ++ complaints }

/-- Keeps the complaints of a filling, also when it ended early. -/
def take {Result : Type} (evaluator : Evaluator) (filling : Filling Result) :
    Except Overlong Result × Evaluator :=
  (filling.result, evaluator.note filling.notes)

/-- The value of an expression; `undefined`, with a complaint, if it has none. -/
def evaluate (evaluator : Evaluator) (source : String) (scope : Fields) :
    Except Overlong Value × Evaluator :=
  match Expr.valueOf source scope with
  | .error overlong => (.error overlong, evaluator)
  | .ok (.ok value) => (.ok value, evaluator)
  | .ok (.error failure) => (.ok .undefined, evaluator.note [.evaluation source failure])

def fillText (evaluator : Evaluator) (text : String) (scope : Fields) :
    Except Overlong String × Evaluator :=
  evaluator.take (Template.fill scope text)

def fillValue (evaluator : Evaluator) (value : Value) (scope : Fields) :
    Except Overlong Value × Evaluator :=
  evaluator.take (value.fill scope)

/-- The first complaints, as many as the limit allows; a negative limit leaves out that many at
the end. -/
def reported (evaluator : Evaluator) : List Complaint :=
  if 0 ≤ evaluator.limit then evaluator.pending.take evaluator.limit.toNat
  else evaluator.pending.take (evaluator.pending.length - evaluator.limit.natAbs)

/-- Reports complaints and forgets all of them. -/
def report (evaluator : Evaluator) : List Complaint × Evaluator :=
  (evaluator.reported, { evaluator with pending := [] })

end Evaluator

end Keymap
