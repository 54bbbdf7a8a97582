import Keymap.Pattern.Repeat
import Keymap.Pattern.Group

/-!
Reading the text of a pattern: alternatives of sequences of nodes. A pattern that has been read is
checked for look-behinds without one width, and for repetition where it is not allowed.
-/

set_option autoImplicit false

namespace Keymap.Pattern

mutual

/-- Alternatives, up to a closing parenthesis or the end of the text. -/
def readAlternatives (verbose top first : Bool) : Nat → Reading Alternatives
  | 0 => return []
  | fuel + 1 => do
      let sequence ← readSequence verbose (top && first) [] fuel
      if ← accept '|' then
        let source ← get
        let verbose := if top then source.flags.verbose else verbose
        return sequence :: (← readAlternatives verbose top false fuel)
      else return [sequence]

/-- One alternative; `before` holds the nodes read so far, the last one first. `first` says that
flags for the whole pattern may still stand here. -/
def readSequence (verbose first : Bool) (before : List Node) : Nat → Reading (List Node)
  | 0 => return before.reverse
  | fuel + 1 => do
      let next ← peek
      if next = [] || next = ['|'] || next = [')'] then return before.reverse
      let mark ← place
      let _ ← take
      let go (nodes : List Node) := readSequence verbose first nodes fuel
      match next with
      | ['\\', letter] => go ((← readEscape letter) :: before)
      | [c] =>
          if verbose && isPatternSpace c then go before
          else if verbose && c = '#' then
            skipLine ((← get).rest.length + 1)
            go before
          else if c = '[' then
            let negated ← accept '^'
            let items ← readSet mark [] ((← get).rest.length + 1)
            go (.set negated items :: before)
          else if c = '?' || c = '*' || c = '+' || c = '\x7b' then
            match ← readQuantifier c with
            | .literal => go (oneChar c.toNat :: before)
            | .bounds least most => go (← applyQuantifier mark least most before)
          else if c = '.' then go (.any :: before)
          else if c = '^' then go (.anchor .lineStart :: before)
          else if c = '$' then go (.anchor .lineEnd :: before)
          else if c = '(' then
            match ← readOpening mark with
            | .nothing => go before
            | .node node => go (node :: before)
            | .globalFlags =>
                if !first || !before.isEmpty then
                  throw (.malformed .lateFlags (some mark))
                readSequence (← get).flags.verbose first before fuel
            | .capturing name =>
                let group ← openGroup name
                let body ← readAlternatives verbose false true fuel
                closeParen mark
                closeGroup group body
                go (.group (some group) Flags.none Flags.none body :: before)
            | .scoped added removed =>
                let inner := (verbose || added.verbose) && !removed.verbose
                let body ← readAlternatives inner false true fuel
                closeParen mark
                go (.group none added removed body :: before)
            | .atomic =>
                let body ← readAlternatives verbose false true fuel
                closeParen mark
                go (.atomic body :: before)
            | .look ahead positive =>
                let outer := (← get).lookBehind
                if !ahead && outer.isNone then
                  modify fun source => { source with lookBehind := some source.groups.length }
                let body ← readAlternatives verbose false true fuel
                let after ← get
                if !ahead && outer.isNone then set { after with lookBehind := none }
                closeParen mark
                let behind := if ahead then none else some (alternativesWidth after.groups body)
                go (.look behind positive body :: before)
            | .conditional =>
                let group ← readCondition
                let whenSet ← readSequence verbose false [] fuel
                let otherwise ← if ← accept '|' then do
                    let sequence ← readSequence verbose false [] fuel
                    if (← peek) = ['|'] then refuse .tooManyBranches 0
                    pure (some sequence)
                  else pure none
                closeParen mark
                go (.conditional group whenSet otherwise :: before)
          else go (oneChar c.toNat :: before)
      | _ => go before

end

/-- Look-behinds must have one width; nothing may be repeated in a plain pattern. The first
offence in the order of the text counts. -/
def checkLook (width : Width) : Except Fault Unit :=
  if maxRepeat < width.least then .error (.malformed .farLookBehind none)
  else if width.least ≠ width.most then .error (.malformed .variableLookBehind none)
  else .ok ()

mutual

def checkNode (plain : Bool) : Node → Except Fault Unit
  | .group _ added removed body =>
      checkAlternatives ((plain || added.plain) && !removed.plain) body
  | .atomic body => checkAlternatives plain body
  | .look behind _ body => do
      match behind with
      | some width => checkLook width
      | none => pure ()
      checkAlternatives plain body
  | .repeated _ _ greed item => do
      if plain then throw (.malformed (.plainRepeat greed) none)
      checkNode plain item
  | .conditional _ whenSet otherwise => do
      checkSequence plain whenSet
      match otherwise with
      | some sequence => checkSequence plain sequence
      | none => return
  | _ => .ok ()

def checkSequence (plain : Bool) :
    List Node → Except Fault Unit
  | [] => .ok ()
  | node :: rest => do
      checkNode plain node
      checkSequence plain rest

def checkAlternatives (plain : Bool) :
    List (List Node) → Except Fault Unit
  | [] => .ok ()
  | sequence :: rest => do
      checkSequence plain sequence
      checkAlternatives plain rest

end

/-- Reads a text as a pattern under the given flags. -/
def read (flags : Flags) (text : List Char) : Except Fault Compiled := do
  let start : Source := ⟨text, text.length, flags, [], [none], none, []⟩
  let reading : Reading Alternatives := do
    checkNext
    let body ← readAlternatives flags.verbose true true (2 * text.length + 2)
    return body
  let (body, source) ← reading.run start
  if source.flags.ascii && source.flags.unicode then throw .twoCharacterSets
  if !source.rest.isEmpty then
    throw (.malformed .unbalanced (some (text.length - source.rest.length)))
  match source.asked.find? fun (group, _) => source.groups.length ≤ group with
  | some (group, position) => throw (.malformed (.invalidReference group) (some position))
  | none => pure ()
  checkAlternatives source.flags.plain body
  return ⟨source.flags, body⟩

end Keymap.Pattern
