import Keymap.Binding.Concrete
import Keymap.Binding.Table
import Keymap.Schema.Specification

/-!
What compiling a document gives: the modes, a flat table of bindings, the codes of their
sequences, and the problems on the way.
-/

set_option autoImplicit false

namespace Keymap

/-- The sizes that a compilation reports. -/
structure Diagnostics where
  rawBindings : Nat
  expandedBindings : Nat
  modeBindings : Nat
  bindings : Nat
  prefixCodes : Nat
  conflicts : Counters
  problems : Nat

structure CompileResult where
  header : Header
  modes : List Mode
  kinds : List Kind
  definitions : Fields
  bindings : List ConcreteBinding
  codes : CodeTable
  problems : List Problem
  diagnostics : Diagnostics

namespace Compile

/-- Puts the problems of a compilation into its result. -/
def withProblems (problems : List Problem) (result : CompileResult) : CompileResult :=
  { result with
    problems := problems
    diagnostics := { result.diagnostics with problems := problems.length } }

/-- A document that has been compiled, and whether it was legacy. -/
structure Compiled where
  result : CompileResult
  upgraded : Bool

def groupInto (binding : ConcreteBinding) :
    List (Int × List ConcreteBinding) → List (Int × List ConcreteBinding)
  | [] => [(binding.index, [binding])]
  | (index, bindings) :: rest =>
      if index = binding.index then (index, bindings ++ [binding]) :: rest
      else (index, bindings) :: groupInto binding rest

/-- The bindings of each entry of the document, by the place of the entry. -/
def groups (bindings : List ConcreteBinding) : List (Int × List ConcreteBinding) :=
  Sorting.sort (fun left right => decide (left.1 ≤ right.1))
    (bindings.foldl (fun grouped binding => groupInto binding grouped) [])

def countersValue (counters : Counters) : Value :=
  .object (counters.map fun (name, count) => (name, Value.ofInt count))

def kindValue (kind : Kind) : Value :=
  .object [("name", .text kind.name), ("description", .text kind.description)]

def problemTexts (problems : List Problem) : Value := Binding.texts (problems.map (·.message))

/-- The compiled document. The checksum is that of the file it was read from. -/
def Compiled.toValue (compiled : Compiled) (checksum : Option String) : Value :=
  let result := compiled.result
  let sizes := result.diagnostics
  .object
    [("name", Binding.optionalText result.header.name),
     ("description", Binding.optionalText result.header.description),
     ("required_extensions", Binding.texts result.header.requiredExtensions),
     ("modes", .list (result.modes.map (·.toValue))),
     ("kinds", .list (result.kinds.map kindValue)),
     ("define", .object result.definitions),
     ("bindings", .list (result.bindings.map (·.toValue))),
     ("prefix_codes", result.codes.toValue),
     ("problems", problemTexts result.problems),
     ("diagnostics", .object
       [("raw_bindings", Value.ofInt sizes.rawBindings),
        ("expanded_bindings", Value.ofInt sizes.expandedBindings),
        ("mode_bindings", Value.ofInt sizes.modeBindings),
        ("bindings", Value.ofInt sizes.bindings),
        ("prefix_codes", Value.ofInt sizes.prefixCodes),
        ("conflicts", countersValue sizes.conflicts),
        ("problems", Value.ofInt sizes.problems),
        ("legacy_upgraded", .bool compiled.upgraded)]),
     ("checksum", Binding.optionalText checksum)]

end Compile

end Keymap
