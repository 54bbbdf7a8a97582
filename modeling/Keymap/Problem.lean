import Keymap.Expr.Template
import Keymap.Pattern.Fault

/-!
What can be wrong with a document. A defect makes a document, or one entry of it, unusable; a
problem is reported beside the result; a fault ends the whole run.
-/

set_option autoImplicit false

namespace Keymap

open Keymap.Text (quoted)

/-- Why a document or an entry is refused. `label` says where in the document. -/
inductive Defect where
  | notMapping (label : String)
  | unknownFields (label : String) (fields : List String)
  | emptyText (label : String)
  | notText (label : String)
  | notFlag (label : String)
  | notNumber (label : String)
  | notTexts (label : String)
  | notList (label : String)
  | noVersion
  | unsupportedVersion (version : String)
  | unresolvedCommand (label name : String)
  | notCommands (label : String)
  | invalidKey (label key : String)
  | noModes (label : String)
  | unexpandedForeach (label : String)
  | manyCaptures (label : String)
  | negativeRepeat (label : String)
  | notChoice (label : String) (choices : List String)
  | invalidDefaultId (label id : String)
  | missingDefinition (label name : String)
  | nestedDefinition (label name : String)
  | notDefinition (label name : String)
  | invalidPattern (label pattern reason : String)
  | unknownFormat (source format : String)
  | unreadable (source format reason : String)
  | notDocument (source : String)
  | unknownFileType (path : String) (types : List String)
  | notVariable (text : String)
deriving DecidableEq, Repr

def Defect.message : Defect → String
  | .notMapping label => label ++ " must be a mapping"
  | .unknownFields label fields => label ++ " has unknown fields: " ++ Value.shownNames fields
  | .emptyText label => label ++ " must be a non-empty string"
  | .notText label => label ++ " must be a string"
  | .notFlag label => label ++ " must be a boolean"
  | .notNumber label => label ++ " must be a number"
  | .notTexts label => label ++ " must be a string or a list of strings"
  | .notList label => label ++ " must be a list"
  | .noVersion => "header.version is required"
  | .unsupportedVersion version =>
      "header.version: unsupported version '" ++ version ++ "' (expected 2.0)"
  | .unresolvedCommand label name =>
      label ++ ": unresolved reference to defined command '" ++ name ++ "'"
  | .notCommands label => label ++ " must be a command or a list of commands"
  | .invalidKey label key => label ++ ": invalid keybinding '" ++ key ++ "'"
  | .noModes label => label ++ " must name at least one mode"
  | .unexpandedForeach label => label ++ ".foreach was not expanded"
  | .manyCaptures label => label ++ ": at most one input-capturing command is allowed"
  | .negativeRepeat label => label ++ ".computedRepeat must not be negative"
  | .notChoice label choices => label ++ " must be one of " ++ Value.shownNames choices
  | .invalidDefaultId label id =>
      label ++ ".id: '" ++ id ++ "' must be dot-separated letters, digits, '_' or '-'"
  | .missingDefinition label name =>
      label ++ ": command definition missing under 'define." ++ name ++ "'"
  | .nestedDefinition label name =>
      label ++ ": 'define." ++ name ++ "' may not nest runCommands or defined commands"
  | .notDefinition label name => label ++ ": 'define." ++ name ++ "' must hold commands"
  | .invalidPattern label pattern reason =>
      label ++ ": invalid key pattern '" ++ pattern ++ "': " ++ reason
  | .unknownFormat source format =>
      source ++ ": unknown document format '" ++ format ++ "'"
  | .unreadable source format reason =>
      source ++ ": could not parse " ++ format ++ ": " ++ reason
  | .notDocument source => source ++ ": top level must be a mapping"
  | .unknownFileType path types =>
      path ++ ": unsupported binding file type (expected one of " ++ Value.shownNames types ++ ")"
  | .notVariable text => "--var expects NAME=VALUE, got '" ++ text ++ "'"

/-- What is reported beside a result. -/
inductive Problem where
  | defect (defect : Defect)
  | complaint (complaint : Complaint)
  | unknownSections (names : List String)
  | duplicateKind (label name : String)
  | repeatedDefault (id : String)
  | orphanDefault (id parent : String)
  | undefinedDefault (label id : String)
  | finalStep (label command : String)
  | undeclaredKind (label kind : String)
  | repeatedMode (name : String)
  | noDefaultMode (chosen : String)
  | manyDefaultModes (names : List String) (chosen : String)
  | undefinedFallback (mode fallback : String)
  | mixedModes (key : String)
  | unrestrictedStep (key mode : String)
  | ignoredSequence (command key : String)
  | duplicateBinding (keys mode : String)
deriving DecidableEq, Repr

/-- Keys with a single quote are shown in back quotes, and bare if they have those as well. -/
def shownKeys (keys : String) : String :=
  if keys.toList.contains '\'' then
    if keys.toList.contains '\x60' then keys else "\x60" ++ keys ++ "\x60"
  else "'" ++ keys ++ "'"

def Problem.message : Problem → String
  | .defect cause => cause.message
  | .complaint cause => cause.message
  | .unknownSections names =>
      "document has unknown top-level fields: " ++ Value.shownNames names
  | .duplicateKind label name => label ++ ": duplicate kind '" ++ name ++ "'"
  | .repeatedDefault id => "The default '" ++ id ++ "' is defined more than once."
  | .orphanDefault id parent =>
      "The default '" ++ id ++ "' was defined before '" ++ parent ++ "'."
  | .undefinedDefault label id => label ++ ": The default '" ++ id ++ "' is undefined."
  | .finalStep label command =>
      label ++ ": 'finalKey' must be false for a command that calls '" ++ command ++ "'"
  | .undeclaredKind label kind => label ++ ".kind: '" ++ kind ++ "' is not a declared kind"
  | .repeatedMode name => "Mode '" ++ name ++ "' is defined more than once."
  | .noDefaultMode chosen =>
      "There must be exactly one default mode; none is marked, using '" ++ chosen ++ "'."
  | .manyDefaultModes names chosen =>
      "There must be exactly one default mode; found " ++ Value.shownNames names ++
        ", using '" ++ chosen ++ "'."
  | .undefinedFallback mode fallback =>
      "Mode '" ++ mode ++ "' falls back to undefined mode '" ++ fallback ++ "'."
  | .mixedModes key =>
      "Either all or none of the modes for binding '" ++ key ++ "' must be prefixed with '!'"
  | .unrestrictedStep key mode =>
      "Key binding '" ++ key ++ "' for mode '" ++ mode ++
        "' is a prefix command; it cannot use '\x7b\x7ball_prefixes\x7d\x7d'."
  | .ignoredSequence command key =>
      "Expected " ++ command ++ " commands to be single sequence keys (found '" ++ key ++ "')."
  | .duplicateBinding keys mode =>
      "Duplicate bindings for " ++ shownKeys keys ++ " in mode '" ++ mode ++ "'"

/-- What ends a run without a result. -/
inductive Fault where
  | defect (defect : Defect)
  /-- A typed prefix that no code was given to. -/
  | noCode (lead : String)
  | overlong (overlong : Overlong)
  | repeatTooLarge
  | twoCharacterSets
  | notIterable
deriving DecidableEq, Repr

def Fault.message : Fault → String
  | .defect cause => cause.message
  | .noCode lead => "no prefix code was assigned to prefix '" ++ lead ++ "'"
  | .overlong cause => cause.message
  | .repeatTooLarge => "the repetition number is too large"
  | .twoCharacterSets => "ASCII and UNICODE flags are incompatible"
  | .notIterable => "the commands of a sequence must be iterable"

/-- The defect of a malformed pattern; the other faults of patterns end the run. -/
def Fault.ofPattern (label pattern : String) : Pattern.Fault → Fault
  | .malformed cause position =>
      .defect (.invalidPattern label pattern
        (Pattern.malformedMessage pattern.toList cause position))
  | .repeatTooLarge => .repeatTooLarge
  | .twoCharacterSets => .twoCharacterSets

end Keymap
