import Keymap.Binding.Docs
import Keymap.Mode.Table
import Mathlib.Data.List.Basic

/-!
Documentation is shared within one mode: what is shared in a mode does not depend on the bindings
in other modes, and copies of a mode's bindings share what these share.
-/

set_option autoImplicit false

namespace Keymap

namespace Docs

open ModeTable (place)

theorem group_in_mode (bindings : List Binding) (binding : Binding) (mode : String)
    (here : binding.mode? = some mode) :
    (bindings.filter fun other => groupOf other = groupOf binding) =
      (bindings.filter fun other => other.mode? = some mode).filter fun other =>
        groupOf other = groupOf binding := by
  rw [List.filter_filter]
  apply List.filter_congr
  intro other _
  by_cases same : groupOf other = groupOf binding
  · have mode : other.mode? = some mode := (congrArg Group.mode same).trans here
    simp [same, mode]
  · simp [same]

theorem merge_in_mode (bindings : List Binding) (mode : String) :
    ((merge bindings).filter fun binding => binding.mode? = some mode) =
      merge (bindings.filter fun binding => binding.mode? = some mode) := by
  unfold merge
  rw [List.filter_map]
  have asked : ((fun binding : Binding => decide (binding.mode? = some mode)) ∘ share bindings) =
      fun binding => decide (binding.mode? = some mode) := rfl
  rw [asked]
  apply List.map_congr_left
  intro binding member
  have here : binding.mode? = some mode := by simpa using (List.mem_filter.mp member).2
  unfold share
  rw [group_in_mode bindings binding mode here]

theorem firstDoc_place (bindings : List Binding) (implicit : Bool) (mode name : String) :
    firstDoc? name (bindings.map (place · implicit mode)) = firstDoc? name bindings := by
  simp only [firstDoc?, List.findSome?_map]
  rfl

theorem merge_place (bindings : List Binding) (root : String)
    (each : ∀ binding ∈ bindings, binding.mode? = some root) (implicit : Bool) (mode : String) :
    merge (bindings.map (place · implicit mode)) = (merge bindings).map (place · implicit mode) := by
  unfold merge
  rw [List.map_map, List.map_map]
  apply List.map_congr_left
  intro binding member
  have group : ((bindings.map (place · implicit mode)).filter fun other =>
        groupOf other = groupOf (place binding implicit mode)) =
      (bindings.filter fun other => groupOf other = groupOf binding).map
        (place · implicit mode) := by
    rw [List.filter_map]
    congr 1
    apply List.filter_congr
    intro other among
    have same : (groupOf (place other implicit mode) = groupOf (place binding implicit mode)) ↔
        groupOf other = groupOf binding := by
      simp only [groupOf, place, Binding.mode?, Option.bind_some, List.head?_cons,
        Group.mk.injEq, true_and]
      have modes := (each other among).trans (each binding member).symm
      simp only [Binding.mode?] at modes
      simp [modes]
    simp only [Function.comp_apply, same]
  simp only [Function.comp_apply, share, group, sharedDocs, firstDoc_place]
  rfl

end Docs

end Keymap
