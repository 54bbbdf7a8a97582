import Keymap.Value.Basic

/-!
Deep merging: mappings merge field by field and lists item by item; in any other pairing the
second value replaces the first.
-/

set_option autoImplicit false

namespace Keymap.Value

mutual

def merge (base : Value) : Value → Value
  | .object upper => match base with
    | .object fields => .object (mergeFields fields upper)
    | _ => .object upper
  | .list upper => match base with
    | .list items => .list (mergeItems items upper)
    | _ => .list upper
  | upper => upper

def mergeFields (base : Fields) : List (String × Value) → Fields
  | [] => base
  | (name, value) :: rest =>
      let merged := match base.get? name with
        | some old => merge old value
        | none => value
      mergeFields (base.insert name merged) rest

def mergeItems (base : List Value) : List Value → List Value
  | [] => base
  | value :: rest => match base with
    | [] => value :: rest
    | old :: others => merge old value :: mergeItems others rest

end

end Keymap.Value
