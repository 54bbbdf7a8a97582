import Keymap.Compile.Result
import Keymap.Entry.Defaults
import Keymap.Entry.Definition
import Keymap.Entry.Foreach
import Keymap.Mode.Table
import Keymap.Binding.Docs
import Keymap.Sequence.Steps

/-!
Compiling a document into a flat table of bindings, each with one key, one mode and at most one
prefix.
-/

set_option autoImplicit false

namespace Keymap

namespace Compile

def asEntry : Value → Option Fields
  | .object fields => some fields
  | _ => none

/-- The defects of a computation become problems; other faults stay. -/
def settleFault {Result : Type} (otherwise : Result) :
    Except Fault Result → Noted Problem Fault Result
  | .ok result => .done result
  | .error (.defect defect) => ⟨[.defect defect], .ok otherwise⟩
  | .error fault => .fail fault

/-- The entries that one entry of the document stands for, and how many of its complaints are
reported. -/
def expandEntry (options : Options) (defaults : DefaultTable) (definitions : Fields)
    (label : String) (entry : Fields) : Noted Problem Fault (List Fields) :=
  let (problems, merged) := defaults.apply label entry
  match Definition.resolve definitions label merged with
  | .error defect => ⟨problems ++ [.defect defect], .ok []⟩
  | .ok resolved =>
      let expanding := Foreach.expand definitions label resolved
      let evaluator := (Evaluator.new options.errorLimit).note expanding.notes
      let settled := settleFault [] expanding.result
      ⟨problems ++ settled.notes ++ evaluator.reported.map .complaint, settled.result⟩

/-- The bindings of the expanded entries; those with defects are noted and left out. -/
def readExpanded (options : Options) (kinds : List Kind) (label : String) (index : Int) :
    List Fields → List Problem × List Binding
  | [] => ([], [])
  | entry :: rest =>
      let reading := Schema.readBinding options kinds label index (.object entry)
      let (others, bindings) := readExpanded options kinds label index rest
      match reading.result with
      | .ok binding => (reading.notes ++ others, binding :: bindings)
      | .error defect => (reading.notes ++ .defect defect :: others, bindings)

/-- The bindings of one entry of the document. -/
def readEntry (options : Options) (spec : Specification) (defaults : DefaultTable)
    (index : Nat) (value : Value) : Noted Problem Fault (List Binding) :=
  let label := Schema.itemLabel "bind" index
  match asEntry value with
  | none => ⟨[.defect (.notMapping label)], .ok []⟩
  | some entry => do
      let expanded ← expandEntry options defaults spec.definitions label entry
      let (problems, bindings) := readExpanded options spec.kinds label index expanded
      Noted.note problems
      return bindings

def readEntries (options : Options) (spec : Specification) (defaults : DefaultTable)
    (index : Nat) : List Value → Noted Problem Fault (List Binding)
  | [] => .done []
  | value :: rest => do
      let bindings ← readEntry options spec defaults index value
      return bindings ++ (← readEntries options spec defaults (index + 1) rest)

def expandEntries (options : Options) (spec : Specification) :
    Noted Problem Fault (List Binding) := do
  let (problems, defaults) := DefaultTable.ofEntries spec.defaults
  Noted.note problems
  readEntries options spec defaults 0 spec.bindings

/-- Bindings by priority; those of one priority stay in the order of the document. -/
def byPriority (bindings : List Binding) : List Binding :=
  Sorting.sort (fun left right => !(right.priority.less left.priority)) bindings

def assemble (options : Options) (codes : CodeTable) :
    List Binding → Except Fault (List ConcreteBinding)
  | [] => .ok []
  | binding :: rest => do
      let concrete ← ConcreteBinding.ofBinding options codes binding
      return concrete :: (← assemble options codes rest)

def sortedCounters (counters : Counters) : Counters :=
  Sorting.sort (fun left right => decide (left.1 ≤ right.1)) counters

/-- Compiles the sections of a document. -/
def specification (options : Options) (spec : Specification) :
    Noted Problem Fault CompileResult := do
  let (modeProblems, modes) := ModeTable.ofModes spec.modes
  Noted.note modeProblems
  let expanded ← expandEntries options spec
  let split := Sequence.splitAll (byPriority expanded)
  let (expandProblems, placed) := ModeTable.expand modes split
  Noted.note expandProblems
  let sequences := Sequence.compile options (Docs.merge placed)
  Noted.note sequences.table.problems
  let codes := sequences.codes.freeze
  let bindings ← Noted.ofExcept (assemble options codes sequences.table.bindings)
  return {
    header := spec.header
    modes := modes
    kinds := spec.kinds
    definitions := spec.definitions.insert "prefixCodes" codes.toValue
    bindings := bindings
    codes := codes
    problems := []
    diagnostics :=
      { rawBindings := spec.bindings.length
        expandedBindings := expanded.length
        modeBindings := placed.length
        bindings := bindings.length
        prefixCodes := codes.entries.length
        conflicts := sortedCounters sequences.table.counters
        problems := 0 } }

/-- The document in the current layout. Whether it is legacy has to be known first, so its version
has to be readable. -/
def upgraded (document : Value) : Except Fault Value :=
  match Version.overlong? document.version.display.toList with
  | some digits => .error (.overlong (.read digits))
  | none =>
      if document.isLegacy then
        match Legacy.upgrade document with
        | .ok upgraded => .ok upgraded
        | .error .notIterable => .error .notIterable
      else .ok document

/-- Compiles a document. Only its header, sections of the wrong shape, and faults end without a
result; all else is among the problems of the result. -/
def document (options : Options) (document : Value) : Except Fault Compiled := do
  let current ← upgraded document
  let reading := Schema.readSpecification current
  let spec ← reading.result.mapError .defect
  let compiling := specification options spec
  let result ← compiling.result
  return ⟨withProblems (reading.notes ++ compiling.notes) result, document.isLegacy⟩

end Compile

end Keymap
