import Keymap.Binding.Basic
import Keymap.Options
import Keymap.Problem

/-!
Bindings that claim one place. Ordered rules decide whether the binding already there is kept or
replaced; where no rule has an opinion, the later binding takes the place.
-/

set_option autoImplicit false

namespace Keymap

namespace Conflict

inductive Action where
  | keep
  | replace
deriving DecidableEq, Repr

inductive Rule where
  | identical
  | ignoreLoses
  | manualStepWins
  | explicitModeWins
deriving DecidableEq, Repr

def Rule.name : Rule → String
  | .identical => "identical"
  | .ignoreLoses => "ignore_loses"
  | .manualStepWins => "manual_prefix_wins"
  | .explicitModeWins => "explicit_mode_wins"

/-- A step that the compiler made. -/
def isAutomatedStep (options : Options) (binding : Binding) : Bool :=
  match binding.commands with
  | [command] =>
      command.runs options.stepCommand &&
        match command.read "args" with
        | .object args => !(Fields.read "automated" args).isVacuous
        | _ => false
  | _ => false

/-- A step that the document asks for. -/
def isManualStep (options : Options) (binding : Binding) : Bool :=
  binding.runs options.stepCommand && !(isAutomatedStep options binding)

/-- What a rule says of two bindings for one place; none if it has no opinion. -/
def Rule.decide (options : Options) (existing new : Binding) : Rule → Option Action
  | .identical => if existing.content = new.content then some .keep else none
  | .ignoreLoses =>
      if new.onlyRuns options.ignoreCommand then some .keep
      else if existing.onlyRuns options.ignoreCommand then some .replace
      else none
  | .manualStepWins =>
      if isAutomatedStep options existing && isManualStep options new then some .replace
      else if isAutomatedStep options new && isManualStep options existing then some .keep
      else none
  | .explicitModeWins =>
      if new.implicit then some .keep
      else if existing.implicit then some .replace
      else none

def rules : List Rule := [.identical, .ignoreLoses, .manualStepWins, .explicitModeWins]

/-- The decision, and the rule that made it. -/
def decide (options : Options) (existing new : Binding) : Action × Option Rule :=
  match rules.findSome? fun rule =>
      (rule.decide options existing new).map fun action => (action, rule) with
  | some (action, rule) => (action, some rule)
  | none => (.replace, none)

/-- The keys of a binding with the first prefix before them, unless a prefix is empty. -/
def shownSequence (binding : Binding) : String :=
  match binding.prefixes with
  | [] => binding.key
  | lead :: others =>
      if (lead :: others).all (· ≠ "") then lead ++ " " ++ binding.key else binding.key

def duplicate (binding : Binding) : Problem :=
  .duplicateBinding (shownSequence binding) (binding.mode?.getD "None")

end Conflict

end Keymap
