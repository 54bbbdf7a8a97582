import Keymap.Pattern.Basic
import Keymap.Text.Character

/-!
Matching a pattern against a key name. A node leads from one spot in the name to the list of
spots where it may end, in the order in which they are tried. Key names are ASCII, so classes of
characters are decided there, and case is folded as among the letters of key names.
-/

set_option autoImplicit false

namespace Keymap.Pattern

open Keymap.Text (fold lowerAscii)

/-- A place in the name, with the groups that have been passed: number, start and end. -/
structure Spot where
  position : Nat
  captures : List (Nat × Nat × Nat)
deriving DecidableEq, Repr

def Spot.capture? (spot : Spot) (group : Nat) : Option (Nat × Nat) := spot.captures.lookup group

def Spot.capture (spot : Spot) (group start : Nat) : Spot :=
  { spot with captures :=
      (group, start, spot.position) :: spot.captures.filter fun capture => capture.1 ≠ group }

def Category.holds (category : Category) (c : Char) : Bool :=
  match category with
  | .digit => c.isDigit
  | .space => Keymap.Text.isBlank c
  | .word => c.isAlphanum || c = '_'

def foldCase (flags : Flags) (c : Char) : Char := if flags.ascii then lowerAscii c else fold c

/-- The codes that a character of a name stands for under the flags: itself and, where case is
ignored, every character that folds to the same letter. -/
def codesOf (flags : Flags) (c : Char) : List Nat :=
  if flags.ignoreCase then
    let small := lowerAscii c
    let relatives := if flags.ascii then [] else match small with
      | 's' => [0x17f]
      | 'k' => [0x212a]
      | 'i' => [0x130, 0x131]
      | _ => []
    c.toNat :: small.toNat :: c.toUpper.toNat :: relatives
  else [c.toNat]

def SetItem.holds (flags : Flags) (c : Char) : SetItem → Bool
  | .char code => (codesOf flags c).contains code
  | .range low high => (codesOf flags c).any fun code => low ≤ code && code ≤ high
  | .category negated kind => kind.holds c != negated

def setHolds (flags : Flags) (negated : Bool) (items : List SetItem) (c : Char) : Bool :=
  (items.any fun item => item.holds flags c) != negated

def isWordAt (name : Array Char) (position : Nat) : Bool :=
  (name[position]?.map fun c => Category.word.holds c).getD false

def isWordBefore (name : Array Char) (position : Nat) : Bool :=
  0 < position && isWordAt name (position - 1)

def breakAt (name : Array Char) (position : Nat) : Bool := name[position]? = some '\n'

def Anchor.holds (flags : Flags) (name : Array Char) (position : Nat) : Anchor → Bool
  | .textStart => position = 0
  | .textEnd => position = name.size
  | .lineStart =>
      position = 0 || (flags.multiline && breakAt name (position - 1))
  | .lineEnd =>
      position = name.size || (breakAt name position &&
        (flags.multiline || position + 1 = name.size))
  | .boundary => isWordBefore name position != isWordAt name position
  | .inside => isWordBefore name position == isWordAt name position

/-- Goes through an item so many times. Once another round leads nowhere new, none does. -/
def rounds (step : Spot → List Spot) : Nat → List Spot → List Spot
  | 0, spots => spots
  | count + 1, spots =>
      let next := (spots.flatMap step).eraseDups
      if next = spots then spots else rounds step count next

/-- Goes through an item as often as allowed, unless the last round went nowhere. Greedy
repetition tries further rounds first, lazy repetition the end. -/
def further (step : Spot → List Spot) (greedy : Bool) :
    Nat → Option Nat → Option Nat → Spot → List Spot
  | 0, _, _, spot => [spot]
  | fuel + 1, left, last, spot =>
      let onward :=
        if left = some 0 || last = some spot.position then []
        else (step spot).flatMap
          (further step greedy fuel (left.map (· - 1)) (some spot.position))
      if greedy then onward ++ [spot] else spot :: onward

/-- Goes through an item as often as allowed and never takes a round back. -/
def drive (step : Spot → List Spot) : Nat → Option Nat → Option Nat → Spot → Spot
  | 0, _, _, spot => spot
  | fuel + 1, left, last, spot =>
      if left = some 0 || last = some spot.position then spot
      else match step spot with
        | [] => spot
        | next :: _ => drive step fuel (left.map (· - 1)) (some spot.position) next

/-- Rounds beyond these leave every spot where it is. -/
def enough (size least : Nat) : Nat := min least (64 * (size + 1))

def repetition (size : Nat) (step : Spot → List Spot) (least : Nat) (most : Option Nat)
    (greed : Greed) (spot : Spot) : List Spot :=
  let left := most.map (· - least)
  match greed with
  | .greedy => ((rounds step (enough size least) [spot]).flatMap
      (further step true (size + 2) left none)).eraseDups
  | .lazy => ((rounds step (enough size least) [spot]).flatMap
      (further step false (size + 2) left none)).eraseDups
  | .possessive =>
      (rounds (fun start => (step start).take 1) (enough size least) [spot]).map
        (drive step (size + 2) left none)

/-- The text of a group must stand again at the spot. -/
def repeats (flags : Flags) (name : Array Char) (start size position : Nat) : Bool :=
  (List.range size).all fun index =>
    match name[start + index]?, name[position + index]? with
    | some first, some again =>
        if flags.ignoreCase then foldCase flags first = foldCase flags again else first = again
    | _, _ => false

mutual

def nodeSpots (name : Array Char) (flags : Flags) : Node → Spot → List Spot
  | .set negated items, spot => match name[spot.position]? with
    | some c =>
        if setHolds flags negated items c then [{ spot with position := spot.position + 1 }]
        else []
    | none => []
  | .any, spot => match name[spot.position]? with
    | some c =>
        if c ≠ '\n' || flags.dotAll then [{ spot with position := spot.position + 1 }] else []
    | none => []
  | .anchor anchor, spot => if anchor.holds flags name spot.position then [spot] else []
  | .group index added removed body, spot =>
      let ends := alternativesSpots name (flags.within added removed) body spot
      match index with
      | some group => ends.map fun after => after.capture group spot.position
      | none => ends
  | .atomic body, spot => (alternativesSpots name flags body spot).take 1
  | .look none positive body, spot =>
      match alternativesSpots name flags body spot, positive with
      | after :: _, true => [{ after with position := spot.position }]
      | [], false => [spot]
      | _, _ => []
  | .look (some width) positive body, spot =>
      let back := width.least
      let found := if spot.position < back then []
        else alternativesSpots name flags body { spot with position := spot.position - back }
      match found, positive with
      | after :: _, true => [{ after with position := spot.position }]
      | [], false => [spot]
      | _, _ => []
  | .repeated least most greed item, spot =>
      repetition name.size (nodeSpots name flags item) least most greed spot
  | .reference group, spot => match spot.capture? group with
    | some (start, finish) =>
        let size := finish - start
        if repeats flags name start size spot.position then
          [{ spot with position := spot.position + size }]
        else []
    | none => []
  | .conditional group whenSet otherwise, spot =>
      if (spot.capture? group).isSome then sequenceSpots name flags whenSet spot
      else match otherwise with
        | some sequence => sequenceSpots name flags sequence spot
        | none => [spot]

def sequenceSpots (name : Array Char) (flags : Flags) : List Node → Spot → List Spot
  | [], spot => [spot]
  | node :: rest, spot =>
      ((nodeSpots name flags node spot).flatMap (sequenceSpots name flags rest)).eraseDups

def alternativesSpots (name : Array Char) (flags : Flags) :
    List (List Node) → Spot → List Spot
  | [], _ => []
  | sequence :: rest, spot =>
      (sequenceSpots name flags sequence spot ++ alternativesSpots name flags rest spot).eraseDups

end

/-- Whether the pattern takes the whole name. -/
def Compiled.matches (pattern : Compiled) (name : String) : Bool :=
  let chars := name.toList.toArray
  (alternativesSpots chars pattern.flags pattern.body ⟨0, []⟩).any fun spot =>
    spot.position = chars.size

end Keymap.Pattern
