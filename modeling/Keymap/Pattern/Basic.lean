/-!
Patterns over key names: literals, sets, groups with alternatives, repetition, references to
groups and assertions about the text around. Flags are scoped to groups.
-/

set_option autoImplicit false

namespace Keymap

namespace Pattern

inductive Category where
  | digit
  | space
  | word
deriving DecidableEq, Repr

/-- Characters of a pattern are codes, for an escape may name a code that is no character. -/
inductive SetItem where
  | char (code : Nat)
  | range (low high : Nat)
  | category (negated : Bool) (category : Category)
deriving DecidableEq, Repr

inductive Anchor where
  | lineStart
  | lineEnd
  | textStart
  | textEnd
  | boundary
  | inside
deriving DecidableEq, Repr

inductive Greed where
  | greedy
  | lazy
  | possessive
deriving DecidableEq, Repr

structure Flags where
  ignoreCase : Bool
  multiline : Bool
  dotAll : Bool
  verbose : Bool
  ascii : Bool
  unicode : Bool
  plain : Bool
deriving DecidableEq, Repr

def Flags.none : Flags := ⟨false, false, false, false, false, false, false⟩

def Flags.or (left right : Flags) : Flags :=
  ⟨left.ignoreCase || right.ignoreCase, left.multiline || right.multiline,
    left.dotAll || right.dotAll, left.verbose || right.verbose, left.ascii || right.ascii,
    left.unicode || right.unicode, left.plain || right.plain⟩

def Flags.without (left right : Flags) : Flags :=
  ⟨left.ignoreCase && !right.ignoreCase, left.multiline && !right.multiline,
    left.dotAll && !right.dotAll, left.verbose && !right.verbose, left.ascii && !right.ascii,
    left.unicode && !right.unicode, left.plain && !right.plain⟩

def Flags.isEmpty (flags : Flags) : Bool := flags = Flags.none

/-- The flags inside a group that turns some on and some off. A choice of character set replaces
the one around it. -/
def Flags.within (flags added removed : Flags) : Flags :=
  let kept := if added.ascii || added.unicode then { flags with ascii := false, unicode := false }
    else flags
  (kept.or added).without removed

/-- The least and the greatest number of characters that a pattern takes. -/
structure Width where
  least : Nat
  most : Nat
deriving DecidableEq, Repr

namespace Width

/-- Widths are cut off here. -/
def ceiling : Nat := 18446744073709551616

def zero : Width := ⟨0, 0⟩

def one : Width := ⟨1, 1⟩

def add (left right : Width) : Width := ⟨left.least + right.least, left.most + right.most⟩

def join (left right : Width) : Width := ⟨min left.least right.least, max left.most right.most⟩

def cut (width : Width) : Width := ⟨min width.least ceiling, min width.most ceiling⟩

def times (width : Width) (least : Nat) : Option Nat → Width
  | some most => ⟨width.least * least, width.most * most⟩
  | none => ⟨width.least * least, if width.most = 0 then 0 else ceiling⟩

end Width

inductive Node where
  | set (negated : Bool) (items : List SetItem)
  | any
  | anchor (anchor : Anchor)
  | group (index : Option Nat) (added removed : Flags) (body : List (List Node))
  | atomic (body : List (List Node))
  /-- Looks ahead, or back by the width of its contents. -/
  | look (behind : Option Width) (positive : Bool) (body : List (List Node))
  | repeated (least : Nat) (most : Option Nat) (greed : Greed) (item : Node)
  | reference (group : Nat)
  | conditional (group : Nat) (whenSet : List Node) (otherwise : Option (List Node))

/-- A pattern is a list of alternatives, each a sequence. -/
abbrev Alternatives := List (List Node)

/-- A pattern with the flags for all of it. -/
structure Compiled where
  flags : Flags
  body : Alternatives

def Node.isRepeat : Node → Bool
  | .repeated .. => true
  | _ => false

def Node.isAnchor : Node → Bool
  | .anchor _ => true
  | _ => false

mutual

/-- The width of a node, given the widths of the groups closed before it. -/
def Node.width (groups : List (Option Width)) : Node → Width
  | .set .. => .one
  | .any => .one
  | .anchor _ => .zero
  | .look .. => .zero
  | .group _ _ _ body => alternativesWidth groups body
  | .atomic body => alternativesWidth groups body
  | .repeated least most _ item => (Node.width groups item).times least most
  | .reference group => ((groups[group]?).getD Option.none).getD .zero
  | .conditional _ whenSet otherwise =>
      let first := sequenceWidth groups whenSet
      match otherwise with
      | some sequence => first.join (sequenceWidth groups sequence)
      | Option.none => ⟨0, first.most⟩

def sequenceWidth (groups : List (Option Width)) : List Node → Width
  | [] => .zero
  | node :: rest => ((Node.width groups node).add (sequenceWidth groups rest)).cut

def alternativesWidth (groups : List (Option Width)) : List (List Node) → Width
  | [] => .zero
  | [sequence] => sequenceWidth groups sequence
  | sequence :: rest => (sequenceWidth groups sequence).join (alternativesWidth groups rest)

end

end Pattern

end Keymap
