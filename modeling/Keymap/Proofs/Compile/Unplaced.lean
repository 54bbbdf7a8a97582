import Keymap.Proofs.Binding.Conflict
import Keymap.Proofs.Compile.Stages
import Keymap.Proofs.Mode.Table
import Keymap.Proofs.Schema.Labels

/-!
Compilation carries the places of entries along and looks at them only to put its bindings in
order. Lists of bindings that differ in places alone go through every pass alike, and come to the
same codes, the same counters and the same bindings up to order and places.
-/

set_option autoImplicit false

namespace Keymap

namespace Binding

/-- The same bindings one by one, but for their places. -/
def Alike (left right : List Binding) : Prop := left.map unplaced = right.map unplaced

theorem signature_unplaced (binding : Binding) : binding.unplaced.signature = binding.signature :=
  rfl

theorem content_unplaced (binding : Binding) : binding.unplaced.content = binding.content := rfl

theorem runs_unplaced (binding : Binding) (name : String) :
    binding.unplaced.runs name = binding.runs name := rfl

theorem onlyRuns_unplaced (binding : Binding) (name : String) :
    binding.unplaced.onlyRuns name = binding.onlyRuns name := rfl

theorem alike_flatMap {left right : List Binding} (change : Binding → List Binding)
    (blind : ∀ binding, (change binding).map unplaced = (change binding.unplaced).map unplaced)
    (alike : Alike left right) : Alike (left.flatMap change) (right.flatMap change) := by
  have through : ∀ bindings : List Binding, (bindings.flatMap change).map unplaced =
      (bindings.map unplaced).flatMap fun binding => (change binding).map unplaced := by
    intro bindings
    rw [List.map_flatMap, List.flatMap_map]
    exact List.flatMap_congr fun binding _ => blind binding
  rw [Alike, through, through, alike]

end Binding

open Binding (Alike unplaced alike_flatMap signature_unplaced content_unplaced runs_unplaced
  onlyRuns_unplaced)

namespace Conflict

theorem isAutomatedStep_unplaced (options : Options) (binding : Binding) :
    isAutomatedStep options binding.unplaced = isAutomatedStep options binding := rfl

theorem isManualStep_unplaced (options : Options) (binding : Binding) :
    isManualStep options binding.unplaced = isManualStep options binding := rfl

/-- No rule looks at the place of an entry. -/
theorem decide_unplaced (options : Options) (existing new : Binding) :
    decide options existing.unplaced new.unplaced = decide options existing new := by
  have implicit : ∀ binding : Binding, binding.unplaced.implicit = binding.implicit :=
    fun _ => rfl
  rw [decide_eq, decide_eq]
  simp only [content_unplaced, onlyRuns_unplaced, isAutomatedStep_unplaced,
    isManualStep_unplaced, implicit]

end Conflict

namespace Sequence

theorem splitAll_alike {left right : List Binding} (alike : Alike left right) :
    Alike (splitAll left) (splitAll right) := by
  apply alike_flatMap splitPrefixes _ alike
  intro binding
  have same : binding.unplaced.prefixes = binding.prefixes := rfl
  unfold splitPrefixes
  rw [same]
  split
  · rfl
  · rfl
  · simp only [List.map_map]
    rfl

end Sequence

namespace ModeTable

theorem expand_alike (modes : List Mode) {left right : List Binding} (alike : Alike left right) :
    Alike (expand modes left).2 (expand modes right).2 := by
  rw [expand_eq, expand_eq]
  apply alike_flatMap _ _ alike
  intro binding
  simp only [copies, List.map_append, List.map_map]
  rfl

end ModeTable

namespace Docs

theorem share_unplaced (bindings : List Binding) (binding : Binding) :
    (share bindings binding).unplaced = share (bindings.map unplaced) binding.unplaced := by
  have fields : sharedDocs (bindings.filter fun other => groupOf other = groupOf binding) =
      sharedDocs ((bindings.map unplaced).filter fun other =>
        groupOf other = groupOf binding.unplaced) := by
    unfold sharedDocs
    apply List.filterMap_congr
    intro name _
    rw [firstDoc?, firstDoc?, List.filter_map, List.findSome?_map]
    rfl
  unfold share
  dsimp only
  rw [fields]
  rfl

theorem merge_alike {left right : List Binding} (alike : Alike left right) :
    Alike (merge left) (merge right) := by
  have through : ∀ bindings : List Binding, (merge bindings).map unplaced =
      (bindings.map unplaced).map (share (bindings.map unplaced)) := by
    intro bindings
    rw [merge, List.map_map, List.map_map]
    exact List.map_congr_left fun binding _ => share_unplaced bindings binding
  rw [Alike, through, through, alike]

end Docs

namespace Placed

/-- What counts when others claim the place. -/
def bare (placed : Placed) : Binding.Signature × Binding :=
  (placed.signature, placed.binding.unplaced)

theorem find?_bare (asked : Binding.Signature) (places : List Placed) :
    (BindingTable.find? asked places).map bare =
      (places.map bare).find? fun entry => entry.1 = asked := by
  rw [List.find?_map]
  rfl

theorem insert_bare {placed other : Placed} (same : placed.bare = other.bare)
    (left right : List Placed) (alike : left.map bare = right.map bare) :
    (BindingTable.insert placed left).map bare = (BindingTable.insert other right).map bare := by
  have signature : placed.signature = other.signature := congrArg Prod.fst same
  induction left generalizing right with
  | nil =>
    obtain rfl := List.map_eq_nil_iff.mp alike.symm
    exact congrArg (fun entry => [entry]) same
  | cons first rest ih =>
    cases right with
    | nil => cases alike
    | cons head others =>
      have heads := (List.cons.inj alike).1
      have tails := (List.cons.inj alike).2
      have stands : first.signature = head.signature := congrArg Prod.fst heads
      rw [BindingTable.insert, BindingTable.insert, stands, signature]
      split
      · rw [List.map_cons, List.map_cons, same, tails]
      · rw [List.map_cons, List.map_cons, heads, ih others tails]

end Placed

namespace BindingTable

/-- Tables that differ only in positions, places of entries and what they reported. -/
structure Twin (left right : BindingTable) : Prop where
  places : left.places.map Placed.bare = right.places.map Placed.bare
  counters : left.counters = right.counters

theorem twin_add (options : Options) {left right : BindingTable} (twin : Twin left right)
    {new other : Binding} (same : new.unplaced = other.unplaced)
    (index rank otherIndex otherRank : Int) :
    Twin (left.add options new index rank) (right.add options other otherIndex otherRank) := by
  have signature : new.signature = other.signature := by
    rw [← signature_unplaced, same, signature_unplaced]
  have bare : ∀ leftPosition rightPosition,
      (Placed.mk new.signature leftPosition new).bare =
        (Placed.mk other.signature rightPosition other).bare :=
    fun _ _ => Prod.ext signature same
  have found : (find? new.signature left.places).map Placed.bare =
      (find? other.signature right.places).map Placed.bare := by
    rw [Placed.find?_bare, Placed.find?_bare, twin.places, signature]
  unfold add
  dsimp only
  cases here : find? new.signature left.places with
  | none =>
    rw [here, Option.map_none, eq_comm, Option.map_eq_none_iff] at found
    rw [found]
    exact ⟨Placed.insert_bare (bare _ _) _ _ twin.places, twin.counters⟩
  | some current =>
    rw [here, Option.map_some, eq_comm, Option.map_eq_some_iff] at found
    obtain ⟨held, there, alike⟩ := found
    have holders : held.binding.unplaced = current.binding.unplaced := congrArg Prod.snd alike
    have decided : Conflict.decide options held.binding other =
        Conflict.decide options current.binding new := by
      rw [← Conflict.decide_unplaced, holders, ← same, Conflict.decide_unplaced]
    rw [there]
    dsimp only
    rw [decided, twin.counters]
    refine ⟨?_, rfl⟩
    cases (Conflict.decide options current.binding new).1 with
    | keep => exact twin.places
    | replace => exact Placed.insert_bare (bare _ _) _ _ twin.places

theorem bindings_twin {left right : BindingTable} (twin : Twin left right) :
    (left.bindings.map unplaced).Perm (right.bindings.map unplaced) := by
  have listed : ∀ table : BindingTable, (table.bindings.map unplaced).Perm
      ((table.places.map Placed.bare).map Prod.snd) := by
    intro table
    rw [bindings, List.map_map, List.map_map]
    exact (Sorting.sort_perm _ _).map _
  have same := listed left
  rw [twin.places] at same
  exact same.trans (listed right).symm

end BindingTable

namespace Sequence

/-- States that differ only in positions, places of entries and what they reported. -/
structure Twin (left right : State) : Prop where
  codes : left.codes = right.codes
  table : BindingTable.Twin left.table right.table

variable (options : Options)

theorem twin_note {left right : State} (twin : Twin left right) (first second : List Problem) :
    Twin (left.note first) (right.note second) :=
  ⟨twin.codes, twin.table.places, twin.table.counters⟩

section Step

variable {binding other : Binding} (same : binding.unplaced = other.unplaced)

include same

theorem automatedStep_unplaced (lead key : String) (code : Nat) :
    (automatedStep options binding lead key code).unplaced =
      (automatedStep options other lead key code).unplaced :=
  congrArg (fun source => automatedStep options source lead key code) same

theorem manualStep_unplaced (lead key : String) (code : Nat) :
    (manualStep options binding lead key code).unplaced =
      (manualStep options other lead key code).unplaced :=
  congrArg (fun source => manualStep options source lead key code) same

theorem moved_unplaced (lead key : String) :
    ({ binding with key := key, prefixes := [lead] } : Binding).unplaced =
      ({ other with key := key, prefixes := [lead] } : Binding).unplaced :=
  congrArg (fun source : Binding => { source with key := key, prefixes := [lead] }) same

theorem twin_addSteps (lead : String) (left right : State) (twin : Twin left right)
    (keys : List String) :
    (addSteps options binding lead left keys).1 = (addSteps options other lead right keys).1 ∧
      Twin (addSteps options binding lead left keys).2
        (addSteps options other lead right keys).2 := by
  induction keys generalizing lead left right with
  | nil => exact ⟨rfl, twin⟩
  | cons key rest ih =>
    apply ih
    rw [twin.codes]
    exact ⟨rfl, BindingTable.twin_add options twin.table
      (automatedStep_unplaced options same _ _ _) _ _ _ _⟩

theorem twin_addLast (single : Bool) (lead key : String) {left right : State}
    (twin : Twin left right) :
    Twin (addLast options binding single lead key left)
      (addLast options other single lead key right) := by
  have runs : other.runs options.stepCommand = binding.runs options.stepCommand := by
    rw [← runs_unplaced, ← same, runs_unplaced]
  obtain ⟨codes, table, manual⟩ := left
  obtain ⟨otherCodes, otherTable, otherManual⟩ := right
  obtain ⟨rfl, tables⟩ := twin
  unfold addLast
  rw [runs]
  split
  · constructor
    · rfl
    · have noted : BindingTable.Twin
          { table with problems := table.problems ++ unrestricted binding }
          { otherTable with problems := otherTable.problems ++ unrestricted other } :=
        ⟨tables.places, tables.counters⟩
      dsimp only [State.note]
      exact BindingTable.twin_add options noted
        (manualStep_unplaced options same lead key _) _ _ _ _
  · constructor
    · rfl
    · cases single with
      | true =>
        dsimp only
        rw [if_pos rfl, if_pos rfl]
        exact BindingTable.twin_add options tables same _ _ _ _
      | false =>
        dsimp only
        rw [if_neg Bool.false_ne_true, if_neg Bool.false_ne_true]
        exact BindingTable.twin_add options tables (moved_unplaced same lead key) _ _ _ _

theorem twin_addBinding {left right : State} (twin : Twin left right) :
    Twin (addBinding options left binding) (addBinding options right other) := by
  have keys : keysOf other = keysOf binding := by
    have whole := congrArg keysOf same
    exact whole.symm
  have written : other.key = binding.key := by
    have whole := congrArg Binding.key same
    exact whole.symm
  have ignores : other.onlyRuns options.ignoreCommand =
      binding.onlyRuns options.ignoreCommand := by
    rw [← onlyRuns_unplaced, ← same, onlyRuns_unplaced]
  unfold addBinding
  rw [keys, written, ignores]
  split
  · exact twin_note twin _ _
  · split
    · exact twin
    · exact twin_addLast options same true "" _ twin
    · next key before _ _ =>
      have stepped := twin_addSteps options same "" _ _
        (twin_note twin (unrestricted binding) (unrestricted other)) before.reverse
      dsimp only
      rw [stepped.1]
      exact twin_addLast options same false _ _ stepped.2

end Step

theorem twin_compile {left right : List Binding} (alike : Alike left right) :
    Twin (compile options left) (compile options right) := by
  have start : Twin State.start State.start := ⟨rfl, rfl, rfl⟩
  have run : ∀ (left right : List Binding) (first second : State), Alike left right →
      Twin first second →
      Twin (left.foldl (addBinding options) first) (right.foldl (addBinding options) second) := by
    intro left
    induction left with
    | nil =>
      intro right first second alike twin
      obtain rfl := List.map_eq_nil_iff.mp alike.symm
      exact twin
    | cons binding rest ih =>
      intro right first second alike twin
      cases right with
      | nil => cases alike
      | cons other others =>
        have heads := (List.cons.inj alike).1
        have tails := (List.cons.inj alike).2
        exact ih others _ _ tails (twin_addBinding options heads twin)
  exact run left right _ _ alike start

end Sequence

end Keymap
