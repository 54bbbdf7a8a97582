import Keymap.Value.Basic

/-!
Codes of typed sequences. Codes count up from the empty sequence, which has code zero.
-/

set_option autoImplicit false

namespace Keymap

/-- The codes of typed sequences, in the order in which they were handed out. -/
structure PrefixCodes where
  names : List String
deriving DecidableEq, Repr

namespace PrefixCodes

/-- Nothing has been typed. -/
def start : PrefixCodes := ⟨[""]⟩

def indexOf? (name : String) : List String → Option Nat
  | [] => none
  | known :: rest => if known = name then some 0 else (indexOf? name rest).map (· + 1)

theorem indexOf?_eq_none_iff (name : String) (names : List String) :
    indexOf? name names = none ↔ name ∉ names := by
  induction names with
  | nil => simp [indexOf?]
  | cons known rest ih =>
    by_cases same : known = name
    · simp [indexOf?, same]
    · simp [indexOf?, same, ih, Ne.symm same]

theorem getElem?_of_indexOf? (name : String) (names : List String) (code : Nat)
    (found : indexOf? name names = some code) : names[code]? = some name := by
  induction names generalizing code with
  | nil => simp [indexOf?] at found
  | cons known rest ih =>
    by_cases same : known = name
    · simp only [indexOf?, if_pos same, Option.some.injEq] at found
      subst found
      simp [same]
    · simp only [indexOf?, if_neg same, Option.map_eq_some_iff] at found
      obtain ⟨earlier, later, rfl⟩ := found
      simpa using ih earlier later

/-- The code of a sequence, which is handed out if there is none. -/
def codeFor (codes : PrefixCodes) (name : String) : Nat × PrefixCodes :=
  match indexOf? name codes.names with
  | some code => (code, codes)
  | none => (codes.names.length, ⟨codes.names ++ [name]⟩)

/-- A sequence has the code that was handed out for it, whatever was known before. -/
theorem getElem?_codeFor (codes : PrefixCodes) (name : String) :
    (codes.codeFor name).2.names[(codes.codeFor name).1]? = some name := by
  unfold codeFor
  split
  · next code found => exact getElem?_of_indexOf? name codes.names code found
  · next => simp

def entries (codes : PrefixCodes) : List (String × Nat) :=
  codes.names.zipIdx

end PrefixCodes

/-- Names and codes as they were handed out. -/
structure CodeTable where
  entries : List (String × Nat)
deriving DecidableEq, Repr

namespace CodeTable

def codeOf? (table : CodeTable) (name : String) : Option Nat :=
  (table.entries.find? fun entry => entry.1 = name).map (·.2)

def nameOf? (table : CodeTable) (code : Nat) : Option String :=
  (table.entries.find? fun entry => entry.2 = code).map (·.1)

def toValue (table : CodeTable) : Value :=
  .object (table.entries.foldl (fun fields entry =>
    Fields.insert entry.1 (Value.ofInt entry.2) fields) [])

end CodeTable

def PrefixCodes.freeze (codes : PrefixCodes) : CodeTable := ⟨codes.entries⟩

end Keymap
