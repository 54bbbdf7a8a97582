import Keymap.Problem
import Keymap.Binding.Basic

/-!
Checks of the shape of values in a document. Each names the place that it is about; null counts
as absent.
-/

set_option autoImplicit false

namespace Keymap.Schema

def mapping (label : String) : Value → Except Defect Fields
  | .object fields => .ok fields
  | _ => .error (.notMapping label)

/-- A text with more than blanks in it, trimmed. -/
def nonEmptyText (label : String) : Value → Except Defect String
  | .text content =>
      let trimmed := Text.trimmed content
      if trimmed.isEmpty then .error (.emptyText label) else .ok trimmed
  | _ => .error (.emptyText label)

def optionalText (label : String) : Value → Except Defect (Option String)
  | .null => .ok none
  | .text content => .ok (some content)
  | _ => .error (.notText label)

def optionalFlag (label : String) : Value → Except Defect (Option Bool)
  | .null => .ok none
  | .bool flag => .ok (some flag)
  | _ => .error (.notFlag label)

def optionalNumber (label : String) : Value → Except Defect (Option Number)
  | .null => .ok none
  | .number amount => .ok (some amount)
  | _ => .error (.notNumber label)

def itemLabel (label : String) (index : Nat) : String :=
  label ++ "[" ++ Number.intText index ++ "]"

def eachText (label : String) (index : Nat) : List Value → Except Defect (List String)
  | [] => .ok []
  | .text content :: rest => do return content :: (← eachText label (index + 1) rest)
  | _ :: _ => .error (.notText (itemLabel label index))

/-- One text stands for a list of it. -/
def textList (label : String) : Value → Except Defect (List String)
  | .null => .ok []
  | .text content => .ok [content]
  | .list items => eachText label 0 items
  | _ => .error (.notTexts label)

def unknownNames (allowed : List String) (fields : Fields) : List String :=
  Sorting.sortTexts (fields.names.filter fun name => !allowed.contains name)

def rejectUnknown (label : String) (allowed : List String) (fields : Fields) :
    Except Defect Unit :=
  let unknown := unknownNames allowed fields
  if unknown.isEmpty then .ok () else .error (.unknownFields label unknown)

def choice (label : String) (choices : List String) (fallback : String) :
    Value → Except Defect String
  | .null => .ok fallback
  | .text content =>
      if choices.contains content then .ok content else .error (.notChoice label choices)
  | _ => .error (.notChoice label choices)

/-- The entries of a section; a section that is not there has none. -/
def entries (root : Fields) (name : String) : Except Defect (List Value) :=
  match root.read name with
  | .null => .ok []
  | .list items => .ok items
  | _ => .error (.notList name)

end Keymap.Schema
