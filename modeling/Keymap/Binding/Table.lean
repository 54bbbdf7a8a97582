import Keymap.Binding.Conflict

/-!
Tables of bindings with one binding per place. Places are told apart by their signatures; a
conflict that no rule settles is reported.
-/

set_option autoImplicit false

namespace Keymap

/-- How often each outcome of a conflict came up, in the order of first appearance. -/
abbrev Counters := List (String × Nat)

def Counters.increment (name : String) : Counters → Counters
  | [] => [(name, 1)]
  | (known, count) :: rest =>
      if known = name then (known, count + 1) :: rest else (known, count) :: increment name rest

/-- Where a binding sorts: by the index and rank it was added with, then by arrival. -/
structure Position where
  index : Int
  rank : Int
  arrival : Nat
deriving DecidableEq, Repr

def Position.atMost (left right : Position) : Bool :=
  left.index < right.index ||
    (left.index = right.index &&
      (left.rank < right.rank || (left.rank = right.rank && left.arrival ≤ right.arrival)))

/-- A binding in its place. -/
structure Placed where
  signature : Binding.Signature
  position : Position
  binding : Binding

structure BindingTable where
  places : List Placed
  arrivals : Nat
  counters : Counters
  problems : List Problem

namespace BindingTable

def empty : BindingTable := ⟨[], 0, [], []⟩

def size (table : BindingTable) : Nat := table.places.length

def find? (signature : Binding.Signature) (places : List Placed) : Option Placed :=
  places.find? fun placed => placed.signature = signature

def insert (placed : Placed) : List Placed → List Placed
  | [] => [placed]
  | other :: rest =>
      if other.signature = placed.signature then placed :: rest else other :: insert placed rest

theorem find?_insert (asked : Binding.Signature) (placed : Placed) (places : List Placed) :
    find? asked (insert placed places) =
      if placed.signature = asked then some placed else find? asked places := by
  induction places with
  | nil => by_cases same : placed.signature = asked <;> simp [find?, insert, same]
  | cons other rest ih =>
    simp only [find?] at ih ⊢
    by_cases taken : other.signature = placed.signature
    · by_cases same : placed.signature = asked <;> simp [insert, taken, same]
    · by_cases here : other.signature = asked
      · subst here
        simp [insert, taken, Ne.symm taken]
      · simp [insert, taken, here, ih]

/-- Adds a binding, which takes its place unless the one already there is kept. -/
def add (options : Options) (table : BindingTable) (binding : Binding) (index rank : Int) :
    BindingTable :=
  let placed : Placed := ⟨binding.signature, ⟨index, rank, table.arrivals⟩, binding⟩
  match find? placed.signature table.places with
  | none =>
      { table with places := insert placed table.places, arrivals := table.arrivals + 1 }
  | some current =>
      let (action, rule) := Conflict.decide options current.binding binding
      { places := match action with
          | .keep => table.places
          | .replace => insert placed table.places
        arrivals := table.arrivals + 1
        counters := table.counters.increment ((rule.map (·.name)).getD "duplicate")
        problems := match rule with
          | some _ => table.problems
          | none => table.problems ++ [Conflict.duplicate binding] }

/-- The surviving bindings by position. -/
def bindings (table : BindingTable) : List Binding :=
  (Sorting.sort (fun left right => left.position.atMost right.position) table.places).map
    (·.binding)

/-- Settles the conflicts among bindings of single keys. -/
def settle (options : Options) (bindings : List Binding) : BindingTable :=
  bindings.foldl (fun table binding => table.add options binding binding.index 0) empty

end BindingTable

end Keymap
