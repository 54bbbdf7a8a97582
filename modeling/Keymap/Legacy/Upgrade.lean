import Keymap.Legacy.Arguments
import Keymap.Legacy.Version

/-!
Bringing legacy documents to the current layout. An ordered list of rules says for places in a
document that a field gets a new name, or that its value is converted; everything else is kept
as it is. Under a new name the rules are asked again.
-/

set_option autoImplicit false

namespace Keymap.Legacy

/-- One step of the way from the top of a document to a value. -/
inductive Step where
  | field (name : String)
  | item (index : Nat)
deriving DecidableEq, Repr

abbrev Path := List Step

inductive Slot where
  | field (name : String)
  | anyItem
deriving DecidableEq, Repr

def Slot.holds : Slot → Step → Bool
  | .field expected, .field name => expected = name
  | .anyItem, .item _ => true
  | _, _ => false

inductive Conversion where
  | version
  | prefixes
  | placeholders
  | arguments
deriving DecidableEq, Repr

inductive Action where
  | rename (name : String)
  | convert (conversion : Conversion)
deriving DecidableEq, Repr

structure Rule where
  place : List Slot
  action : Action
deriving DecidableEq, Repr

def Rule.applies (rule : Rule) (path : Path) : Bool :=
  rule.place.length = path.length &&
    (rule.place.zip path).all fun (slot, step) => slot.holds step

def inBinding (name : String) : List Slot := [.field "bind", .anyItem, .field name]

/-- The first rule that applies counts. -/
def rules : List Rule :=
  [⟨[.field "header", .field "version"], .convert .version⟩,
   ⟨inBinding "path", .rename "defaults"⟩,
   ⟨inBinding "resetTransient", .rename "finalKey"⟩,
   ⟨inBinding "repeat", .rename "computedRepeat"⟩,
   ⟨inBinding "if", .rename "whenComputed"⟩,
   ⟨inBinding "prefixes", .convert .prefixes⟩,
   ⟨inBinding "foreach", .convert .placeholders⟩,
   ⟨inBinding "args", .convert .arguments⟩,
   ⟨inBinding "computedArgs", .convert .arguments⟩,
   ⟨[.field "path"], .rename "default"⟩,
   ⟨[.field "default", .anyItem, .field "when"], .rename "appendWhen"⟩]

/-- Follows the rules that rename until none does. No name is ever renamed back, so there are
fewer renamings than rules. -/
def settle (table : List Rule) : Nat → Path → Path × Option Conversion
  | 0, path => (path, none)
  | fuel + 1, path => match table.find? fun rule => rule.applies path with
    | some ⟨_, .rename name⟩ => settle table fuel (path.dropLast ++ [.field name])
    | some ⟨_, .convert conversion⟩ => (path, some conversion)
    | none => (path, none)

/-- Where a place lies in the layout that the rules lead to, and how its value is converted. -/
def destination (table : List Rule) (path : Path) : Path × Option Conversion :=
  settle table table.length path

/-- The command of the binding that a path leads into. -/
def commandAt (root : Fields) (path : Path) : Value :=
  match path, root.read "bind" with
  | _ :: .item index :: _, .list bindings => match bindings[index]? with
    | some (.object binding) => Fields.read "command" binding
    | _ => .null
  | _, _ => .null

/-- Stands for all prefixes in the current layout. -/
def allPrefixes : String := "\x7b\x7ball_prefixes\x7d\x7d"

def Conversion.apply (root : Fields) (path : Path) (value : Value) :
    Conversion → Except Fault Value
  | .version => .ok (.text "2.0")
  | .prefixes => match value with
    | .text "<all-prefixes>" => .ok (.text allPrefixes)
    | other => .ok other
  | .placeholders => .ok (Braces.doubleIn value)
  | .arguments => upgradeArgs (commandAt root path) value

def Step.name : Step → String
  | .field name => name
  | .item _ => ""

mutual

/-- The value at its place in the new layout, from the value and how it is converted. -/
def upgradeValue (table : List Rule) (root : Fields) (path : Path)
    (conversion : Option Conversion) : Value → Except Fault Value
  | .object fields => match conversion with
    | some conversion => conversion.apply root path (.object fields)
    | none => do return .object (← upgradeFields table root path [] fields)
  | .list items => match conversion with
    | some conversion => conversion.apply root path (.list items)
    | none => do return .list (← upgradeList table root path 0 items)
  | value => match conversion with
    | some conversion => conversion.apply root path value
    | none => .ok value

/-- Of two fields that get one name the later value counts. -/
def upgradeFields (table : List Rule) (root : Fields) (path : Path) (before : Fields) :
    List (String × Value) → Except Fault Fields
  | [] => .ok before
  | (name, value) :: rest => do
      let (target, conversion) := destination table (path ++ [.field name])
      let upgraded ← upgradeValue table root target conversion value
      let newName := (target.getLast?.map Step.name).getD name
      upgradeFields table root path (before.insert newName upgraded) rest

def upgradeList (table : List Rule) (root : Fields) (path : Path) (index : Nat) :
    List Value → Except Fault (List Value)
  | [] => .ok []
  | item :: rest => do
      let (target, conversion) := destination table (path ++ [.item index])
      let upgraded ← upgradeValue table root target conversion item
      return upgraded :: (← upgradeList table root path (index + 1) rest)

end

/-- The document in the current layout. A document that is not legacy is copied without rules. -/
def upgrade (document : Value) : Except Fault Value :=
  match document with
  | .object fields =>
      upgradeValue (if document.isLegacy then rules else []) fields [] none (.object fields)
  | other => .ok other

end Keymap.Legacy
