import Keymap.Number.Basic

/-!
The values of documents and expressions. A mapping keeps its fields in the order in which they
were set, and setting a field again keeps its place. `undefined` is what an expression yields for
a name or a member that is not there; documents never hold it. A text is a sequence of characters of
Unicode: it holds no surrogate, that is no half of a character beyond sixteen bits.
-/

set_option autoImplicit false

namespace Keymap

inductive Value where
  | undefined
  | null
  | bool (flag : Bool)
  | number (amount : Number)
  /-- Of characters only, so every text has an encoding and a digest. -/
  | text (content : String)
  | list (items : List Value)
  | object (fields : List (String × Value))
deriving Inhabited

abbrev Fields := List (String × Value)

namespace Fields

def get? (name : String) : Fields → Option Value
  | [] => none
  | (known, value) :: rest => if known = name then some value else get? name rest

/-- A field that is absent reads as null. -/
def read (name : String) (fields : Fields) : Value := (fields.get? name).getD .null

def has (name : String) (fields : Fields) : Bool := (fields.get? name).isSome

def insert (name : String) (value : Value) : Fields → Fields
  | [] => [(name, value)]
  | (known, old) :: rest =>
      if known = name then (name, value) :: rest else (known, old) :: insert name value rest

def erase (name : String) (fields : Fields) : Fields := fields.filter fun field => field.1 ≠ name

def names (fields : Fields) : List String := fields.map Prod.fst

/-- The fields of the second mapping set over those of the first. -/
def overlay (base upper : Fields) : Fields :=
  upper.foldl (fun fields field => fields.insert field.1 field.2) base

theorem get?_insert (asked name : String) (value : Value) (fields : Fields) :
    (fields.insert name value).get? asked =
      if asked = name then some value else fields.get? asked := by
  induction fields with
  | nil => by_cases same : asked = name <;> simp [insert, get?, same, eq_comm]
  | cons field rest ih =>
    obtain ⟨known, old⟩ := field
    by_cases found : known = name
    · subst found
      by_cases same : known = asked
      · subst same
        simp [insert, get?]
      · simp [insert, get?, same, Ne.symm same]
    · by_cases same : known = asked
      · subst same
        simp [insert, get?, found]
      · simp only [insert, get?, found, same, if_false]
        exact ih

theorem names_insert_of_has (name : String) (value : Value) (fields : Fields)
    (known : fields.has name) : (fields.insert name value).names = fields.names := by
  induction fields with
  | nil => simp [has, get?] at known
  | cons field rest ih =>
    obtain ⟨first, old⟩ := field
    by_cases same : first = name
    · simp [insert, names, same]
    · have later : Fields.has name rest := by simpa [has, get?, same] using known
      have tail := ih later
      simp only [names] at tail
      simp [insert, names, same, tail]

end Fields

namespace Value

def isNull : Value → Bool
  | .null => true
  | _ => false

/-- Null and undefined have no members and equal each other loosely. -/
def isNothing : Value → Bool
  | .null => true
  | .undefined => true
  | _ => false

def text? : Value → Option String
  | .text content => some content
  | _ => none

def object? : Value → Option Fields
  | .object fields => some fields
  | _ => none

def list? : Value → Option (List Value)
  | .list items => some items
  | _ => none

def ofInt (value : Int) : Value := .number (.int value)

/-- Null, false, nought, the empty text and the empty list and mapping hold nothing. -/
def isVacuous : Value → Bool
  | .undefined => true
  | .null => true
  | .bool flag => !flag
  | .number amount => amount.isZero
  | .text content => content.isEmpty
  | .list items => items.isEmpty
  | .object fields => fields.isEmpty

/-- A truth value counts as one or nought where numbers are compared. -/
def asNumber? : Value → Option Number
  | .bool flag => some (.int (if flag then 1 else 0))
  | .number amount => some amount
  | _ => none

mutual

/-- Equality by content: numbers by exact value, mappings whatever the order of their fields. -/
def agrees : Value → Value → Bool
  | .undefined, .undefined => true
  | .null, .null => true
  | .text left, .text right => left == right
  | .list left, .list right => itemsAgree left right
  | .object left, .object right => left.length == right.length && fieldsAgree left right
  | left, right => match left.asNumber?, right.asNumber? with
    | some a, some b => a.equals b
    | _, _ => false

def itemsAgree : List Value → List Value → Bool
  | [], [] => true
  | left :: lefts, right :: rights => agrees left right && itemsAgree lefts rights
  | _, _ => false

def fieldsAgree : List (String × Value) → Fields → Bool
  | [], _ => true
  | (name, left) :: lefts, fields =>
      (match fields.get? name with
        | some right => agrees left right
        | none => false) && fieldsAgree lefts fields

end

mutual

/-- Whether every integer inside has few enough digits to be written. -/
def fitsDigits : Value → Bool
  | .number (.int value) => Number.fitsDigits value
  | .list items => itemsFitDigits items
  | .object fields => fieldsFitDigits fields
  | _ => true

def itemsFitDigits : List Value → Bool
  | [] => true
  | item :: rest => fitsDigits item && itemsFitDigits rest

def fieldsFitDigits : List (String × Value) → Bool
  | [] => true
  | (_, value) :: rest => fitsDigits value && fieldsFitDigits rest

end

end Value

end Keymap
