import Keymap.Pattern.Escape

/-!
Quantifiers, which repeat the node before them.
-/

set_option autoImplicit false

namespace Keymap.Pattern

/-- Counts of repetition must stay below this. -/
def maxRepeat : Nat := 4294967295

inductive Quantifier where
  | literal
  | bounds (least : Nat) (most : Option Nat)

def readCount (digits : List Char) : Reading Nat := do
  let count := valueOf 10 digits
  if maxRepeat ≤ count then throw .repeatTooLarge
  return count

/-- What follows an opening brace. Unless it is a well-formed count, the brace is literal. -/
def readBraces : Reading Quantifier := do
  if (← peek) = ['\x7d'] then return .literal
  let before ← get
  let here ← place
  let lowest ← takeClass isDecimal before.rest.length
  let highest ← if ← accept ',' then takeClass isDecimal before.rest.length else pure lowest
  if !(← accept '\x7d') then
    set before
    return .literal
  let least ← if lowest.isEmpty then pure 0 else readCount lowest
  if highest.isEmpty then return .bounds least none
  let most ← readCount highest
  if most < least then throw (.malformed .repeatBounds (some here))
  return .bounds least (some most)

def readQuantifier : Char → Reading Quantifier
  | '?' => return .bounds 0 (some 1)
  | '*' => return .bounds 0 none
  | '+' => return .bounds 1 none
  | _ => readBraces

/-- The one mark that may follow a quantifier. -/
def readGreed : Reading Greed := do
  if ← accept '?' then return .lazy
  if ← accept '+' then return .possessive
  return .greedy

/-- Applies a quantifier to the last node read; `before` holds the nodes, the last one first. -/
def applyQuantifier (mark : Nat) (least : Nat) (most : Option Nat) (before : List Node) :
    Reading (List Node) := do
  match before with
  | [] => throw (.malformed .nothingToRepeat (some mark))
  | item :: others =>
      if item.isAnchor then throw (.malformed .nothingToRepeat (some mark))
      if item.isRepeat then throw (.malformed .multipleRepeat (some mark))
      let greed ← readGreed
      return .repeated least most greed item :: others

end Keymap.Pattern
