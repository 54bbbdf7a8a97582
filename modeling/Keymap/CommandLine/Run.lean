import Keymap.CommandLine.Command
import Keymap.Compile.Document
import Keymap.Document
import Keymap.File.Tree
import Keymap.Yaml.Codec

/-!
Running commands. What a command prints and its status are pure; files are read from a disk and
saved to it, and YAML is read and written by a codec.
-/

set_option autoImplicit false

namespace Keymap.CommandLine

structure Outcome where
  status : Nat
  output : String
  errors : String
deriving DecidableEq, Repr

/-- A run ends with an outcome, or on a fault that it does not answer. -/
inductive Ending where
  | exits (outcome : Outcome)
  | crashes (fault : Fault)
deriving DecidableEq, Repr

/-- Why a run stops early. -/
inductive Stop where
  | file (cause : File.Fault)
  | fault (cause : Fault)
  /-- What a variable is given is no value. -/
  | variable (reason : String)
deriving DecidableEq, Repr

def complaint (status : Nat) (kind message : String) : Ending :=
  .exits ⟨status, "", "[" ++ kind ++ "] " ++ message ++ "\n"⟩

def Stop.ending : Stop → Ending
  | .file cause => complaint 1 "error" cause.message
  | .variable reason => complaint 1 "error" ("ValueError: " ++ reason)
  | .fault cause => match cause with
    | .defect defect => complaint 2 "config error" defect.message
    | .noCode lead => complaint 1 "runtime error" (Fault.noCode lead).message
    | .overlong overlong => complaint 1 "error" ("ValueError: " ++ overlong.message)
    | .twoCharacterSets =>
        complaint 1 "error" ("ValueError: " ++ Fault.twoCharacterSets.message)
    | .repeatTooLarge => .crashes .repeatTooLarge
    | .notIterable => .crashes .notIterable

def finish : Except Stop Outcome → Ending
  | .ok outcome => .exits outcome
  | .error stop => stop.ending

/-! ## Expressions -/

/-- A variable and its value. Text that is no YAML stands for itself. -/
def variableOf (yaml : Yaml.Codec) (definition : String) : Except Stop (String × Value) :=
  match Text.cutAt ['='] definition.toList with
  | none => .error (.fault (.defect (.notVariable definition)))
  | some (name, content) =>
      let named := Text.trimmed (String.ofList name)
      let written := String.ofList content
      match yaml.read written with
      | .ok value => .ok (named, value)
      | .error .malformed => .ok (named, .text written)
      | .error (.invalid reason) => .error (.variable reason)

/-- The variables of the definitions; of two with one name the later value counts. -/
def scopeOf (yaml : Yaml.Codec) (scope : Fields) : List String → Except Stop Fields
  | [] => .ok scope
  | definition :: rest => do
      let (name, value) ← variableOf yaml definition
      scopeOf yaml (scope.insert name value) rest

/-- The text that a value is printed as. -/
def printed (value : Value) : Except Overlong String :=
  match value with
  | .text content => .ok content
  | .undefined => .ok "undefined"
  | other => if other.fitsDigits then .ok (Json.render Json.unsorted other) else .error .written

namespace Query

/-- The text that a query prints, and the complaints that it leaves. -/
def answer (query : Query) (scope : Fields) : Except Overlong String × Evaluator :=
  let evaluator := Evaluator.new query.errorLimit
  if query.isTemplate then evaluator.fillText query.expression scope
  else
    let (result, after) := evaluator.evaluate query.expression scope
    (result.bind printed, after)

def complaintLines (complaints : List Complaint) : String :=
  Text.joined "" (complaints.map fun complaint =>
    "[expression error] " ++ complaint.message ++ "\n")

/-- The status tells whether a complaint is reported. -/
def outcomeIn (query : Query) (scope : Fields) : Except Stop Outcome := do
  let (result, evaluator) := query.answer scope
  let text ← result.mapError fun overlong => .fault (.overlong overlong)
  let reported := evaluator.reported
  return ⟨if reported.isEmpty then 0 else 1, text ++ "\n", complaintLines reported⟩

def outcome (yaml : Yaml.Codec) (query : Query) : Except Stop Outcome := do
  query.outcomeIn (← scopeOf yaml [] query.definitions)

end Query

/-! ## Files -/

/-- A document and the text it was read from. -/
structure Loaded where
  document : Value
  text : String

variable {Run : Type → Type} [Monad Run]

def load (disk : File.Disk Run) (file : String) : ExceptT Stop Run Loaded := do
  let path := File.Path.ofText file
  match ← disk.read path with
  | .error cause => throw (.file cause)
  | .ok raw =>
      let text := String.ofList (File.plainLines raw.toList)
      let reading : Except Fault Value := do
        let format ← (Document.formatOf path.text).mapError .defect
        Document.read path.text format text
      match reading with
      | .ok document => return ⟨document, text⟩
      | .error cause => throw (.fault cause)

def prettyLine (value : Value) : String := Json.render Json.pretty value ++ "\n"

/-- Saves a text; what is printed names the file. -/
def save (disk : File.Disk Run) (out text : String) : ExceptT Stop Run String := do
  match ← disk.save (File.Path.ofText out) text with
  | .error cause => throw (.file cause)
  | .ok place => return prettyLine (.object [("output_path", .text place)])

structure Compilation where
  compiled : Compile.Compiled
  checksum : String

def compileSource (disk : File.Disk Run) (source : Source) : ExceptT Stop Run Compilation := do
  let loaded ← load disk source.file
  match Compile.document source.options loaded.document with
  | .ok compiled => return ⟨compiled, Text.Digest.ofText loaded.text⟩
  | .error cause => throw (.fault cause)

def Compilation.problems (compilation : Compilation) : List String :=
  compilation.compiled.result.problems.map (·.message)

def Compilation.text (compilation : Compilation) : String :=
  prettyLine (compilation.compiled.toValue (some compilation.checksum))

def problemStatus (problems : List String) : Nat := if problems.isEmpty then 0 else 3

/-- One line for each binding and each problem. -/
def Compilation.summary (compilation : Compilation) : String :=
  let bindings := compilation.compiled.result.bindings.map fun binding =>
    binding.key ++ "\t" ++ binding.mode.getD "" ++ "\t" ++
      Text.joined ", " binding.prefixDescriptions ++ "\n"
  Text.joined "" (bindings ++ compilation.problems.map (· ++ "\n"))

def runCompile (disk : File.Disk Run) (source : Source) (out : Option String) (strict : Bool) :
    ExceptT Stop Run Outcome := do
  let compilation ← compileSource disk source
  let saved ← match out with
    | some file => save disk file compilation.text
    | none => pure compilation.text
  let output := match source.layout with
    | .json => saved
    | .summary => compilation.summary
  return ⟨if strict then problemStatus compilation.problems else 0, output, ""⟩

def runValidate (disk : File.Disk Run) (source : Source) : ExceptT Stop Run Outcome := do
  let compilation ← compileSource disk source
  let problems := compilation.problems
  let output := match source.layout with
    | .json => prettyLine (.object
        [("problems", Binding.texts problems),
         ("bindings", Value.ofInt compilation.compiled.result.bindings.length)])
    | .summary => Text.joined "" (problems.map (· ++ "\n"))
  return ⟨problemStatus problems, output, ""⟩

def runUpgrade (yaml : Yaml.Codec) (disk : File.Disk Run) (file : String) (out : Option String) :
    ExceptT Stop Run Outcome := do
  let loaded ← load disk file
  match Legacy.upgrade loaded.document with
  | .error .notIterable => throw (.fault .notIterable)
  | .ok upgraded =>
      let text := yaml.write upgraded
      match out with
      | some target => return ⟨0, ← save disk target text, ""⟩
      | none => return ⟨0, text, ""⟩

def runCommand (yaml : Yaml.Codec) (disk : File.Disk Run) : Command → ExceptT Stop Run Outcome
  | .compile source out strict => runCompile disk source out strict
  | .validate source => runValidate disk source
  | .upgrade file out => runUpgrade yaml disk file out
  | .evaluate query => ExceptT.mk (pure (query.outcome yaml))

/-- Runs a command and says how it ends. -/
def runWith (yaml : Yaml.Codec) (disk : File.Disk Run) (command : Command) : Run Ending := do
  return finish (← (runCommand yaml disk command).run)

/-- Runs a command with the YAML that is known here. -/
def run (disk : File.Disk Run) (command : Command) : Run Ending :=
  runWith Yaml.basic disk command

end Keymap.CommandLine
