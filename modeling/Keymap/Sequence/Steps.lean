import Keymap.Sequence.Code
import Keymap.Binding.Table

/-!
Key sequences as steps. Every proper beginning of a sequence gets a code; a binding for it is a
binding for its last key that asks for the code of the keys before, and each key before is bound
to the step that moves on to the next code. Steps that a document asks for by themselves count as
declared where they stand.
-/

set_option autoImplicit false

namespace Keymap

namespace Sequence

/-- Gives every binding at most one prefix. -/
def splitPrefixes (binding : Binding) : List Binding :=
  match binding.prefixes with
  | [] => [binding]
  | [_] => [binding]
  | prefixes => prefixes.map fun lead => { binding with prefixes := [lead] }

def splitAll (bindings : List Binding) : List Binding := bindings.flatMap splitPrefixes

def extend (lead key : String) : String := if lead = "" then key else lead ++ " " ++ key

def stepArgs (code : Nat) (automated : Bool) : Fields :=
  [("code", Value.ofInt code), ("automated", .bool automated)]

def stepCommand (options : Options) (code : Nat) (automated : Bool) : Command :=
  [("command", .text options.stepCommand), ("args", .object (stepArgs code automated))]

/-- The step that a longer sequence implies at one of its keys. -/
def automatedStep (options : Options) (binding : Binding) (lead key : String) (code : Nat) :
    Binding :=
  { binding with
    key := key
    commands := [stepCommand options code true]
    prefixes := [lead]
    priority := .int 0
    finalKey := false
    repeatCount := .null
    docs := [("name", .text "prefix"), ("kind", .text "prefix")] }

/-- The step that a binding asks for itself. -/
def manualStep (options : Options) (binding : Binding) (lead key : String) (code : Nat) :
    Binding :=
  { binding with
    key := key
    commands := binding.commands.map fun command =>
      if command.runs options.stepCommand then stepCommand options code false else command
    prefixes := [lead]
    finalKey := false
    docs := if binding.docs.has "kind" then binding.docs
      else binding.docs.insert "kind" (.text "prefix") }

structure State where
  codes : PrefixCodes
  table : BindingTable
  /-- The sequences that documents step to by themselves, with the place of the first. -/
  manual : List (String × Int)

def State.start : State := ⟨.start, .empty, []⟩

def State.note (state : State) (problems : List Problem) : State :=
  { state with table := { state.table with problems := state.table.problems ++ problems } }

/-- A step cannot hold after every prefix. -/
def unrestricted (binding : Binding) : List Problem :=
  if binding.prefixes.isEmpty then
    let mode := (binding.mode?.filter (· ≠ "")).getD "any"
    [.unrestrictedStep binding.key mode]
  else []

/-- Adds the automated steps for the keys before the last one. A step to a sequence that a
document steps to by itself sorts just before that. -/
def addSteps (options : Options) (binding : Binding) (lead : String) (state : State) :
    List String → String × State
  | [] => (lead, state)
  | key :: rest =>
      let next := extend lead key
      let (code, codes) := state.codes.codeFor next
      let step := automatedStep options binding lead key code
      let (index, rank) : Int × Int := match state.manual.lookup next with
        | some declared => (declared, -1)
        | none => (binding.index, 0)
      let table := state.table.add options step index rank
      addSteps options binding next { state with codes := codes, table := table } rest

/-- Adds the binding for the last key of a sequence. -/
def addLast (options : Options) (binding : Binding) (single : Bool) (lead key : String)
    (state : State) : State :=
  if binding.runs options.stepCommand then
    let noted := state.note (unrestricted binding)
    let next := extend lead key
    let (code, codes) := noted.codes.codeFor next
    let manual := if (noted.manual.lookup next).isSome then noted.manual
      else noted.manual ++ [(next, binding.index)]
    let step := manualStep options binding lead key code
    ⟨codes, noted.table.add options step binding.index 0, manual⟩
  else
    let last := if single then binding else { binding with key := key, prefixes := [lead] }
    { state with table := state.table.add options last binding.index 0 }

/-- All keys of a binding, those of its prefix first. -/
def keysOf (binding : Binding) : List String :=
  let key := Text.trimmed binding.key
  let whole := match binding.prefixes.head? with
    | some lead => if lead = "" then key else lead ++ " " ++ key
    | none => key
  Text.wordsOf whole

/-- Adds one binding with the steps that lead to it. Keys are ignored one at a time only. -/
def addBinding (options : Options) (state : State) (binding : Binding) : State :=
  if binding.onlyRuns options.ignoreCommand && 1 < (Text.wordsOf binding.key).length then
    state.note [.ignoredSequence options.ignoreCommand binding.key]
  else match (keysOf binding).reverse with
    | [] => state
    | [key] => addLast options binding true "" key state
    | key :: before =>
        let noted := state.note (unrestricted binding)
        let (lead, stepped) := addSteps options binding "" noted before.reverse
        addLast options binding false lead key stepped

/-- Takes all sequences apart and settles the conflicts. -/
def compile (options : Options) (bindings : List Binding) : State :=
  bindings.foldl (addBinding options) State.start

end Sequence

end Keymap
