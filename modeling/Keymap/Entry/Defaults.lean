import Keymap.Schema.Specification
import Keymap.Value.Merge

/-!
Defaults of bindings. A default whose id has a dotted parent builds on the parent's fields and
conditions; a binding that refers to a default sets its own fields over it and adds its
conditions after its own.
-/

set_option autoImplicit false

namespace Keymap

/-- Arguments are merged deeply; every other field is replaced. -/
def mergedNames : List String := ["args", "computedArgs"]

def mergeField (fields : Fields) (field : String × Value) : Fields :=
  match fields.get? field.1 with
  | some old =>
      if mergedNames.contains field.1 then fields.insert field.1 (old.merge field.2)
      else fields.insert field.1 field.2
  | none => fields.insert field.1 field.2

/-- The fields of the second mapping over those of the first. -/
def mergeDefaults (base upper : Fields) : Fields := upper.foldl mergeField base

structure Default where
  fields : Fields
  appendWhen : List String

namespace Default

def empty : Default := ⟨[], []⟩

def extend (base : Default) (entry : DefaultEntry) : Default :=
  ⟨mergeDefaults base.fields entry.fields, base.appendWhen ++ entry.appendWhen⟩

end Default

/-- The defaults by id, in the order in which they were first set. -/
abbrev DefaultTable := List (String × Default)

namespace DefaultTable

def start : DefaultTable := [("", Default.empty)]

def insert (table : DefaultTable) (id : String) (default : Default) : DefaultTable :=
  match table with
  | [] => [(id, default)]
  | (known, old) :: rest =>
      if known = id then (id, default) :: rest else (known, old) :: insert rest id default

theorem lookup_insert (table : DefaultTable) (asked id : String) (default : Default) :
    (table.insert id default).lookup asked =
      if asked = id then some default else table.lookup asked := by
  induction table with
  | nil =>
    by_cases same : asked = id
    · simp [insert, same]
    · simp [insert, List.lookup_cons, beq_eq_false_iff_ne.mpr same, same]
  | cons entry rest ih =>
    obtain ⟨known, old⟩ := entry
    by_cases found : known = id
    · subst found
      by_cases same : asked = known
      · simp [insert, same]
      · simp [insert, List.lookup_cons, beq_eq_false_iff_ne.mpr same, same]
    · by_cases same : asked = known
      · subst same
        simp [insert, found]
      · simp [insert, found, List.lookup_cons, beq_eq_false_iff_ne.mpr same, ih]

/-- All parts of a dotted id but the last; an id without a point has no parent. -/
def parent? (id : String) : Option String :=
  match Text.pieces '.' id with
  | [] => none
  | [_] => none
  | parts => some (Text.joined "." parts.dropLast)

/-- Adds the first entry of an id. A parent that has not been declared yet is reported, and the
entry stands alone. -/
def declare (table : DefaultTable) (entry : DefaultEntry) : List Problem × DefaultTable :=
  match parent? entry.id with
  | none => ([], table.insert entry.id (Default.empty.extend entry))
  | some parent => match table.lookup parent with
    | some base => ([], table.insert entry.id (base.extend entry))
    | none =>
        ([.orphanDefault entry.id parent], table.insert entry.id (Default.empty.extend entry))

/-- Declares the entries in order; a second entry of an id is reported and left out. -/
def declareAll (declared : List String) (table : DefaultTable) :
    List DefaultEntry → List Problem × DefaultTable
  | [] => ([], table)
  | entry :: rest =>
      if declared.contains entry.id then
        let (problems, final) := declareAll declared table rest
        (.repeatedDefault entry.id :: problems, final)
      else
        let (problems, extended) := table.declare entry
        let (others, final) := declareAll (entry.id :: declared) extended rest
        (problems ++ others, final)

def ofEntries (entries : List DefaultEntry) : List Problem × DefaultTable :=
  declareAll [] start entries

/-- The conditions of an entry as a list, unless they have the wrong shape. -/
def conditions? : Value → Option (List Value)
  | .null => some []
  | .text content => some [.text content]
  | .list items => some items
  | _ => none

/-- An entry over the default that it refers to. -/
def apply (table : DefaultTable) (label : String) (entry : Fields) : List Problem × Fields :=
  let reference := ((entry.get? "defaults").getD (.text "")).display
  let (problems, base) := match table.lookup reference with
    | some found => ([], found)
    | none => ([Problem.undefinedDefault label reference], Default.empty)
  let merged := mergeDefaults base.fields entry
  match conditions? (merged.read "when") with
  | none => (problems, merged)
  | some own =>
      let all := own ++ base.appendWhen.map .text
      (problems, if all.isEmpty then merged else merged.insert "when" (.list all))

end DefaultTable

end Keymap
