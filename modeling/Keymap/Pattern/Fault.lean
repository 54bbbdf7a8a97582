import Keymap.Pattern.Basic
import Keymap.Text.Quoted
import Keymap.Number.Basic

/-!
Why a text is not a pattern. A malformed pattern has a cause and, where there is one, the place of
the cause.
-/

set_option autoImplicit false

namespace Keymap.Pattern

/-- Why a text is not a pattern. -/
inductive Cause where
  | danglingBackslash
  | incompleteEscape (text : String)
  | badEscape (text : String)
  | octalTooLarge (text : String)
  | missing (what : String)
  | unterminatedName (closing : String)
  | unknownCharacterName (name : String)
  | openGroup
  | groupInLookBehind
  | invalidReference (group : Nat)
  | unterminatedSet
  | badRange (low high : String)
  | repeatBounds
  | nothingToRepeat
  | multipleRepeat
  | unexpectedEnd
  | badGroupName (name : String)
  | unknownGroup (name : String)
  | unknownExtension (text : String)
  | unterminatedComment
  | unterminatedGroup
  | badGroupNumber
  | tooManyBranches
  | lateFlags
  | redefinedGroup (name : String) (group earlier : Nat)
  | unknownFlag
  | byteFlag
  | incompatibleFlags
  | unremovableFlags
  | globalFlagOn
  | globalFlagOff
  | contradictoryFlags
  | unbalanced
  | variableLookBehind
  | farLookBehind
  | plainRepeat (greed : Greed)
deriving DecidableEq, Repr

def Cause.message : Cause → String
  | .danglingBackslash => "bad escape (end of pattern)"
  | .incompleteEscape text => "incomplete escape " ++ text
  | .badEscape text => "bad escape " ++ text
  | .octalTooLarge text => "octal escape value " ++ text ++ " outside of range 0-0o377"
  | .missing what => "missing " ++ what
  | .unterminatedName closing => "missing " ++ closing ++ ", unterminated name"
  | .unknownCharacterName name => "undefined character name " ++ Text.quoted name
  | .openGroup => "cannot refer to an open group"
  | .groupInLookBehind => "cannot refer to group defined in the same lookbehind subpattern"
  | .invalidReference group => "invalid group reference " ++ Number.intText group
  | .unterminatedSet => "unterminated character set"
  | .badRange low high => "bad character range " ++ low ++ "-" ++ high
  | .repeatBounds => "min repeat greater than max repeat"
  | .nothingToRepeat => "nothing to repeat"
  | .multipleRepeat => "multiple repeat"
  | .unexpectedEnd => "unexpected end of pattern"
  | .badGroupName name => "bad character in group name " ++ Text.quoted name
  | .unknownGroup name => "unknown group name " ++ Text.quoted name
  | .unknownExtension text => "unknown extension ?" ++ text
  | .unterminatedComment => "missing ), unterminated comment"
  | .unterminatedGroup => "missing ), unterminated subpattern"
  | .badGroupNumber => "bad group number"
  | .tooManyBranches => "conditional backref with more than two branches"
  | .lateFlags => "global flags not at the start of the expression"
  | .redefinedGroup name group earlier =>
      "redefinition of group name " ++ Text.quoted name ++ " as group " ++
        Number.intText group ++ "; was group " ++ Number.intText earlier
  | .unknownFlag => "unknown flag"
  | .byteFlag => "bad inline flags: cannot use 'L' flag with a str pattern"
  | .incompatibleFlags => "bad inline flags: flags 'a', 'u' and 'L' are incompatible"
  | .unremovableFlags => "bad inline flags: cannot turn off flags 'a', 'u' and 'L'"
  | .globalFlagOn => "bad inline flags: cannot turn on global flag"
  | .globalFlagOff => "bad inline flags: cannot turn off global flag"
  | .contradictoryFlags => "bad inline flags: flag turned on and off"
  | .unbalanced => "unbalanced parenthesis"
  | .variableLookBehind => "look-behind requires fixed-width pattern"
  | .farLookBehind => "looks too much behind"
  | .plainRepeat .greedy => "internal: unsupported template operator MAX_REPEAT"
  | .plainRepeat .lazy => "internal: unsupported template operator MIN_REPEAT"
  | .plainRepeat .possessive => "internal: unsupported template operator POSSESSIVE_REPEAT"

inductive Fault where
  | malformed (cause : Cause) (position : Option Nat)
  /-- A repetition count beyond what is counted. -/
  | repeatTooLarge
  /-- Both character sets were asked for. -/
  | twoCharacterSets
deriving DecidableEq, Repr

/-- The message of a malformed pattern, with its place; in a text of several lines the line and
the column are added. -/
def malformedMessage (text : List Char) (cause : Cause) : Option Nat → String
  | none => cause.message
  | some position =>
      let here := cause.message ++ " at position " ++ Number.intText position
      if text.contains '\n' then
        let before := text.take position
        let column := (before.reverse.takeWhile fun c => c ≠ '\n').length + 1
        here ++ " (line " ++ Number.intText (before.count '\n' + 1) ++ ", column " ++
          Number.intText column ++ ")"
      else here

end Keymap.Pattern
