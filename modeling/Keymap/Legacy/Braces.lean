import Keymap.Value.Basic

/-!
Doubling the single braces around placeholders. A placeholder is a pair of braces with no brace
between them, none right before it that opens and none right after it that closes.
-/

set_option autoImplicit false

namespace Keymap.Braces

/-- Where the scan stands: outside of a placeholder, right after an opening brace or not, or
after a brace that may start one, with what was passed since, the last character first. -/
inductive Scan where
  | outside (afterOpening : Bool)
  | inside (passed : List Char)

def scan : Scan → List Char → List Char
  | .outside _, [] => []
  | .inside passed, [] => '{' :: passed.reverse
  | .outside afterOpening, c :: rest =>
      if c = '{' then
        if afterOpening then c :: scan (.outside true) rest else scan (.inside []) rest
      else c :: scan (.outside false) rest
  | .inside passed, c :: rest =>
      if c = '{' then
        if passed.isEmpty then '{' :: '{' :: scan (.outside true) rest
        else '{' :: passed.reverse ++ scan (.inside []) rest
      else if c = '}' then
        if rest.head? = some '}' then '{' :: passed.reverse ++ '}' :: scan (.outside false) rest
        else '{' :: '{' :: passed.reverse ++ '}' :: '}' :: scan (.outside false) rest
      else scan (.inside (c :: passed)) rest

def double (text : String) : String := String.ofList (scan (.outside false) text.toList)

mutual

/-- Doubles the braces in every text inside a value; the names of fields stay. -/
def doubleIn : Value → Value
  | .text content => .text (double content)
  | .list items => .list (doubleInItems items)
  | .object fields => .object (doubleInFields fields)
  | value => value

def doubleInItems : List Value → List Value
  | [] => []
  | item :: rest => doubleIn item :: doubleInItems rest

def doubleInFields : List (String × Value) → Fields
  | [] => []
  | (name, value) :: rest => (name, doubleIn value) :: doubleInFields rest

end

end Keymap.Braces
