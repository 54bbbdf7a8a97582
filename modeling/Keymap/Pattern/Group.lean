import Keymap.Pattern.Escape
import Keymap.Text.Identifier
import Keymap.Number.Numeral

/-!
What an opening parenthesis starts: groups with and without names, flags, assertions, comments,
references by name and conditionals.
-/

set_option autoImplicit false

namespace Keymap.Pattern

def flag? : Char → Option Flags
  | 'i' => some { Flags.none with ignoreCase := true }
  | 'm' => some { Flags.none with multiline := true }
  | 's' => some { Flags.none with dotAll := true }
  | 'x' => some { Flags.none with verbose := true }
  | 'a' => some { Flags.none with ascii := true }
  | 'u' => some { Flags.none with unicode := true }
  | 't' => some { Flags.none with plain := true }
  | 'L' => some Flags.none
  | _ => none

def isLetter : List Char → Bool
  | [c] => Text.startsIdentifier c && c ≠ '_'
  | _ => false

/-- Refuses what stands where a flag or the end of the flags is due. -/
def refuseFlag (next : List Char) (due : String) : Reading Flags :=
  if next.isEmpty then refuse (.missing due) 0
  else if isLetter next then refuse .unknownFlag next.length
  else refuse (.missing due) next.length

/-- The flags that are turned on, and the character that ends them. -/
def readFlagsOn (flags : Flags) (letter : Char) : Nat → Reading (Flags × Char)
  | 0 => return (flags, letter)
  | fuel + 1 => do
      if letter = 'L' then refuse .byteFlag 0
      let flags := flags.or ((flag? letter).getD Flags.none)
      if flags.ascii && flags.unicode then refuse .incompatibleFlags 0
      match ← take with
      | [c] =>
          if c = ')' || c = '-' || c = ':' then return (flags, c)
          else if (flag? c).isSome then readFlagsOn flags c fuel
          else return (← refuseFlag [c] "-, : or )", c)
      | other => return (← refuseFlag other "-, : or )", letter)

/-- The flags that are turned off, up to the colon. -/
def readFlagsOff (flags : Flags) (letter : Char) : Nat → Reading Flags
  | 0 => return flags
  | fuel + 1 => do
      if letter = 'a' || letter = 'u' || letter = 'L' then refuse .unremovableFlags 0
      let flags := flags.or ((flag? letter).getD Flags.none)
      match ← take with
      | [c] =>
          if c = ':' then return flags
          else if (flag? c).isSome then readFlagsOff flags c fuel
          else refuseFlag [c] ":"
      | other => refuseFlag other ":"

/-- Flags for the whole pattern, or those turned on and off in a group. -/
def readFlags (letter : Char) : Reading (Option (Flags × Flags)) := do
  let fuel := (← get).rest.length + 1
  let (added, ending) ← if letter = '-' then pure (Flags.none, '-')
    else readFlagsOn Flags.none letter fuel
  if ending = ')' then
    modify fun source => { source with flags := source.flags.or added }
    return none
  if added.plain then refuse .globalFlagOn 1
  let removed ← if ending = '-' then
      match ← take with
      | [c] => if (flag? c).isSome then readFlagsOff Flags.none c fuel else refuseFlag [c] "flag"
      | other => refuseFlag other "flag"
    else pure Flags.none
  if removed.plain then refuse .globalFlagOff 1
  let both := added.without (added.without removed)
  if !both.isEmpty then refuse .contradictoryFlags 1
  return some (added, removed)

/-- Patterns have fewer groups than this. -/
def maxGroups : Nat := 1073741823

def openGroup (name : Option String) : Reading Nat := do
  let source ← get
  let group := source.groups.length
  match name with
  | none => set { source with groups := source.groups ++ [none] }
  | some known =>
      match source.names.lookup known with
      | some earlier => refuse (.redefinedGroup known group earlier) (known.length + 1)
      | none =>
          set { source with
            groups := source.groups ++ [none], names := source.names ++ [(known, group)] }
  return group

def closeGroup (group : Nat) (body : Alternatives) : Reading Unit :=
  modify fun source => { source with
    groups := source.groups.set group (some (alternativesWidth source.groups body)) }

/-- The rest of a comment, up to its closing parenthesis. -/
def skipComment (opening : Nat) : Nat → Reading Unit
  | 0 => return
  | fuel + 1 => do
      if (← peek).isEmpty then throw (.malformed .unterminatedComment (some opening))
      if (← take) = [')'] then return
      skipComment opening fuel

/-- The rest of a line comment. -/
def skipLine : Nat → Reading Unit
  | 0 => return
  | fuel + 1 => do
      let next ← take
      if next.isEmpty || next = ['\n'] then return
      skipLine fuel

def checkGroupName (name : List Char) : Reading Unit := do
  if !(Text.isIdentifier name) then
    refuse (.badGroupName (String.ofList name)) (name.length + 1)

/-- A reference by name, after its opening. -/
def readNamedReference : Reading Node := do
  let name ← readName ')' "group name"
  checkGroupName name
  let source ← get
  match source.names.lookup (String.ofList name) with
  | none => refuse (.unknownGroup (String.ofList name)) (name.length + 1)
  | some group =>
      if !(closedGroup source group) then refuse .openGroup (name.length + 1)
      checkLookBehind group
      return .reference group

/-- The group that a conditional asks about, by name or by number. -/
def readCondition : Reading Nat := do
  let name ← readName ')' "group name"
  let source ← get
  let back := name.length + 1
  let known := String.ofList name
  let group ← if Text.isIdentifier name then
      match source.names.lookup known with
      | some group => pure group
      | none => refuse (.unknownGroup known) back
    else
      match Number.readInt? (Text.trim name) with
      | none => refuse (.badGroupName known) back
      | some value =>
          if value < 0 then refuse (.badGroupName known) back
          else if value = 0 then refuse .badGroupNumber back
          else if maxGroups ≤ value.toNat then refuse (.invalidReference value.toNat) back
          else
            let here ← place
            if (source.asked.lookup value.toNat).isNone then
              set { source with asked := source.asked ++ [(value.toNat, here - back)] }
            pure value.toNat
  checkLookBehind group
  return group

def closeParen (opening : Nat) : Reading Unit := do
  if !(← accept ')') then throw (.malformed .unterminatedGroup (some opening))

def isPatternSpace (c : Char) : Bool :=
  c = ' ' || ('\t' ≤ c && c ≤ '\r')

/-- What an opening parenthesis starts. -/
inductive Opening where
  | capturing (name : Option String)
  | scoped (added removed : Flags)
  | atomic
  | look (ahead positive : Bool)
  | conditional
  | node (node : Node)
  | nothing
  | globalFlags

/-- Reads what follows an opening parenthesis, up to the contents of the group. -/
def readOpening (opening : Nat) : Reading Opening := do
  if !(← accept '?') then return .capturing none
  let next ← take
  match next with
  | [] => refuse .unexpectedEnd 0
  | ['P'] =>
      if ← accept '<' then
        let name ← readName '>' "group name"
        checkGroupName name
        return .capturing (some (String.ofList name))
      else if ← accept '=' then return .node (← readNamedReference)
      else
        let other ← take
        if other.isEmpty then refuse .unexpectedEnd 0
        refuse (.unknownExtension (String.ofList ('P' :: other))) (other.length + 2)
  | [':'] => return .scoped Flags.none Flags.none
  | ['#'] =>
      skipComment opening ((← get).rest.length + 1)
      return .nothing
  | ['='] => return .look true true
  | ['!'] => return .look true false
  | ['<'] =>
      match ← take with
      | [] => refuse .unexpectedEnd 0
      | ['='] => return .look false true
      | ['!'] => return .look false false
      | other => refuse (.unknownExtension (String.ofList ('<' :: other))) (other.length + 2)
  | ['('] => return .conditional
  | ['>'] => return .atomic
  | other =>
      match other with
      | [c] =>
          if c = '-' || (flag? c).isSome then
            match ← readFlags c with
            | none => return .globalFlags
            | some (added, removed) => return .scoped added removed
          else refuse (.unknownExtension (String.ofList other)) (other.length + 1)
      | _ => refuse (.unknownExtension (String.ofList other)) (other.length + 1)

end Keymap.Pattern
