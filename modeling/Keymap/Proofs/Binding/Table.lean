import Keymap.Binding.Table
import Keymap.Proofs.Binding.Conflict
import Mathlib.Data.List.Nodup

/-!
A table after any run of additions. Every place that was claimed is there once (`run_places`), it
is held by the holder among its own claims (`holderAt_run`), and what the table reports is one
duplicate for each unsettled claim (`problems_run`, `count_duplicates_run`).
-/

set_option autoImplicit false

namespace Keymap

namespace Counters

def count (name : String) : Counters → Nat
  | [] => 0
  | (known, amount) :: rest => if known = name then amount else count name rest

theorem count_increment (asked name : String) (counters : Counters) :
    (counters.increment name).count asked =
      counters.count asked + if name = asked then 1 else 0 := by
  induction counters with
  | nil => simp [count, increment]
  | cons entry rest ih =>
    obtain ⟨known, amount⟩ := entry
    by_cases taken : known = name
    · by_cases same : name = asked
      · simp [increment, count, taken, same]
      · simp [increment, count, taken, same]
    · by_cases here : known = asked
      · have other : name ≠ asked := fun same => taken (here.trans same.symm)
        simp [increment, count, here, other, Ne.symm other]
      · simp [increment, count, taken, here, ih]

end Counters

namespace BindingTable

/-- A binding that is added, and where it sorts. -/
structure Arrival where
  binding : Binding
  index : Int
  rank : Int

variable (options : Options)

def record (table : BindingTable) (arrival : Arrival) : BindingTable :=
  table.add options arrival.binding arrival.index arrival.rank

/-- The table after a run of additions. -/
def run (arrivals : List Arrival) : BindingTable := arrivals.foldl (record options) empty

theorem run_concat (arrivals : List Arrival) (last : Arrival) :
    run options (arrivals ++ [last]) = record options (run options arrivals) last := by
  simp [run]

def holderAt (place : Binding.Signature) (table : BindingTable) : Option Binding :=
  (find? place table.places).map (·.binding)

/-- No two bindings in one place, and each in its own. -/
structure Arranged (places : List Placed) : Prop where
  distinct : (places.map (·.signature)).Nodup
  own : ∀ placed ∈ places, placed.signature = placed.binding.signature

theorem mem_signatures_insert (place : Binding.Signature) (placed : Placed)
    (places : List Placed) :
    place ∈ (insert placed places).map (·.signature) ↔
      place = placed.signature ∨ place ∈ places.map (·.signature) := by
  induction places with
  | nil => simp [insert]
  | cons other rest ih =>
    unfold insert
    split
    · next same => simp [same]
    · next different =>
      simp only [List.map_cons, List.mem_cons] at ih ⊢
      rw [ih]
      tauto

theorem arranged_insert (placed : Placed) (places : List Placed)
    (own : placed.signature = placed.binding.signature) (arranged : Arranged places) :
    Arranged (insert placed places) := by
  induction places with
  | nil => exact ⟨by simp [insert], by simpa [insert] using own⟩
  | cons other rest ih =>
    obtain ⟨distinct, each⟩ := arranged
    simp only [List.map_cons, List.nodup_cons] at distinct
    have later := ih ⟨distinct.2, fun held member => each held (List.mem_cons_of_mem other member)⟩
    unfold insert
    split
    · next same =>
      refine ⟨?_, ?_⟩
      · simpa [← same] using distinct
      · intro held member
        rcases List.mem_cons.mp member with rfl | member
        · exact own
        · exact each held (List.mem_cons_of_mem other member)
    · next different =>
      refine ⟨?_, ?_⟩
      · simp only [List.map_cons, List.nodup_cons]
        refine ⟨?_, later.distinct⟩
        intro among
        rcases (mem_signatures_insert _ _ _).mp among with same | before
        · exact different same
        · exact distinct.1 before
      · intro held member
        rcases List.mem_cons.mp member with rfl | member
        · exact each held List.mem_cons_self
        · exact later.own held member

theorem add_of_free (table : BindingTable) (binding : Binding) (index rank : Int)
    (free : find? binding.signature table.places = none) :
    table.add options binding index rank =
      { table with
        places := insert ⟨binding.signature, ⟨index, rank, table.arrivals⟩, binding⟩ table.places
        arrivals := table.arrivals + 1 } := by
  simp only [add, free]

/-- What one addition makes of a place that is held: the place goes to whom the rules leave it,
and the conflict is counted and, if no rule settles it, reported. -/
theorem add_of_held (table : BindingTable) (binding : Binding) (index rank : Int)
    (current : Placed) (held : find? binding.signature table.places = some current) :
    (table.add options binding index rank).places =
        (if (Conflict.decide options current.binding binding).1 = .replace then
          insert ⟨binding.signature, ⟨index, rank, table.arrivals⟩, binding⟩ table.places
        else table.places) ∧
      (table.add options binding index rank).counters =
        table.counters.increment
          (((Conflict.decide options current.binding binding).2.map (·.name)).getD "duplicate") ∧
      (table.add options binding index rank).problems =
        table.problems ++
          (if (Conflict.decide options current.binding binding).2 = none then
            [Conflict.duplicate binding]
          else []) := by
  simp only [add, held]
  generalize Conflict.decide options current.binding binding = decision
  obtain ⟨action, rule⟩ := decision
  cases action <;> cases rule <;> simp

theorem arranged_add (table : BindingTable) (binding : Binding) (index rank : Int)
    (arranged : Arranged table.places) :
    Arranged (table.add options binding index rank).places := by
  cases found : find? binding.signature table.places with
  | none =>
    rw [add_of_free options table binding index rank found]
    exact arranged_insert _ _ rfl arranged
  | some current =>
    rw [(add_of_held options table binding index rank current found).1]
    split
    · exact arranged_insert _ _ rfl arranged
    · exact arranged

theorem holderAt_add (place : Binding.Signature) (table : BindingTable) (binding : Binding)
    (index rank : Int) :
    holderAt place (table.add options binding index rank) =
      if binding.signature = place then Conflict.claim options (holderAt place table) binding
      else holderAt place table := by
  cases found : find? binding.signature table.places with
  | none =>
    rw [add_of_free options table binding index rank found]
    by_cases here : binding.signature = place
    · subst here
      simp [holderAt, find?_insert, found, Conflict.claim]
    · simp [holderAt, find?_insert, here]
  | some current =>
    have places := (add_of_held options table binding index rank current found).1
    by_cases here : binding.signature = place
    · subst here
      cases action : (Conflict.decide options current.binding binding).1 with
      | keep =>
        rw [if_neg (by simp [action])] at places
        simp [holderAt, places, found, Conflict.claim_of_keep options _ _ action]
      | replace =>
        rw [if_pos action] at places
        simp [holderAt, places, find?_insert, found, Conflict.claim_of_replace options _ _ action]
    · rw [if_neg here]
      unfold holderAt
      rw [places]
      split
      · simp [find?_insert, here]
      · rfl

theorem arranged_run (arrivals : List Arrival) : Arranged (run options arrivals).places := by
  induction arrivals using List.reverseRecOn with
  | nil => exact ⟨List.nodup_nil, by simp [run, empty]⟩
  | append_singleton front last ih =>
    rw [run_concat]
    exact arranged_add options _ _ _ _ ih

/-- A place is held by the holder among the bindings that claimed it. -/
theorem holderAt_run (place : Binding.Signature) (arrivals : List Arrival) :
    holderAt place (run options arrivals) =
      Conflict.holder options (Conflict.claimsOn place (arrivals.map (·.binding))) := by
  induction arrivals using List.reverseRecOn with
  | nil => rfl
  | append_singleton front last ih =>
    rw [run_concat, record, holderAt_add, ih]
    by_cases here : last.binding.signature = place
    · simp [Conflict.claimsOn, here, Conflict.holder_concat]
    · simp [Conflict.claimsOn, here]

theorem problems_add (table : BindingTable) (binding : Binding) (index rank : Int)
    (problem : Problem) :
    problem ∈ (table.add options binding index rank).problems ↔
      problem ∈ table.problems ∨ problem = Conflict.duplicate binding ∧
        ∃ existing, holderAt binding.signature table = some existing ∧
          (Conflict.decide options existing binding).2 = none := by
  cases found : find? binding.signature table.places with
  | none =>
    rw [add_of_free options table binding index rank found]
    simp [holderAt, found]
  | some current =>
    rw [(add_of_held options table binding index rank current found).2.2]
    by_cases undecided : (Conflict.decide options current.binding binding).2 = none
    · simp [holderAt, found, undecided]
    · simp [holderAt, found, undecided]

/-- The duplicates that a run reports are its unsettled claims. -/
theorem problems_run (problem : Problem) (arrivals : List Arrival) :
    problem ∈ (run options arrivals).problems ↔
      ∃ new, problem = Conflict.duplicate new ∧
        Conflict.Unsettled options
          (Conflict.claimsOn new.signature (arrivals.map (·.binding))) new := by
  induction arrivals using List.reverseRecOn with
  | nil => simp [run, empty, Conflict.claimsOn, Conflict.Unsettled]
  | append_singleton front last ih =>
    rw [run_concat, record, problems_add, ih, holderAt_run]
    have grown : ∀ new : Binding,
        Conflict.Unsettled options
            (Conflict.claimsOn new.signature ((front ++ [last]).map (·.binding))) new ↔
          Conflict.Unsettled options
            (Conflict.claimsOn new.signature (front.map (·.binding))) new ∨
          new = last.binding ∧ ∃ existing,
            Conflict.holder options
              (Conflict.claimsOn last.binding.signature (front.map (·.binding))) = some existing ∧
            (Conflict.decide options existing last.binding).2 = none := by
      intro new
      by_cases here : last.binding.signature = new.signature
      · rw [show Conflict.claimsOn new.signature ((front ++ [last]).map (·.binding)) =
            Conflict.claimsOn new.signature (front.map (·.binding)) ++ [last.binding] by
          simp [Conflict.claimsOn, here], Conflict.unsettled_concat, here]
      · rw [show Conflict.claimsOn new.signature ((front ++ [last]).map (·.binding)) =
            Conflict.claimsOn new.signature (front.map (·.binding)) by
          simp [Conflict.claimsOn, here]]
        refine ⟨Or.inl, fun either => either.resolve_right ?_⟩
        rintro ⟨rfl, _⟩
        exact here rfl
    constructor
    · rintro (⟨new, shown, unsettled⟩ | ⟨shown, collision⟩)
      · exact ⟨new, shown, (grown new).mpr (.inl unsettled)⟩
      · exact ⟨last.binding, shown, (grown last.binding).mpr (.inr ⟨rfl, collision⟩)⟩
    · rintro ⟨new, shown, unsettled⟩
      rcases (grown new).mp unsettled with before | ⟨rfl, collision⟩
      · exact .inl ⟨new, shown, before⟩
      · exact .inr ⟨shown, collision⟩

theorem rule_name_ne_duplicate (rule : Conflict.Rule) : rule.name ≠ "duplicate" := by
  cases rule <;> decide

theorem count_duplicates_add (table : BindingTable) (binding : Binding) (index rank : Int)
    (same : table.counters.count "duplicate" = table.problems.length) :
    (table.add options binding index rank).counters.count "duplicate" =
      (table.add options binding index rank).problems.length := by
  cases found : find? binding.signature table.places with
  | none =>
    rw [add_of_free options table binding index rank found]
    exact same
  | some current =>
    obtain ⟨_, counters, problems⟩ := add_of_held options table binding index rank current found
    rw [counters, problems, Counters.count_increment, same, List.length_append]
    cases decided : (Conflict.decide options current.binding binding).2 with
    | none => simp
    | some rule => simp [rule_name_ne_duplicate rule]

theorem count_duplicates_run (arrivals : List Arrival) :
    (run options arrivals).counters.count "duplicate" =
      (run options arrivals).problems.length := by
  induction arrivals using List.reverseRecOn with
  | nil => rfl
  | append_singleton front last ih =>
    rw [run_concat]
    exact count_duplicates_add options _ _ _ _ ih

theorem mem_bindings (table : BindingTable) (binding : Binding) :
    binding ∈ table.bindings ↔ ∃ placed ∈ table.places, placed.binding = binding := by
  simp [bindings, Sorting.mem_sort]

theorem find?_of_mem (places : List Placed) (distinct : (places.map (·.signature)).Nodup)
    (placed : Placed) (member : placed ∈ places) :
    find? placed.signature places = some placed := by
  induction places with
  | nil => simp at member
  | cons other rest ih =>
    simp only [List.map_cons, List.nodup_cons] at distinct
    rcases List.mem_cons.mp member with rfl | member
    · simp [find?]
    · have different : other.signature ≠ placed.signature := fun same =>
        distinct.1 (same ▸ List.mem_map_of_mem member)
      have later := ih distinct.2 member
      simpa [find?, different] using later

theorem mem_bindings_iff_holds (table : BindingTable) (arranged : Arranged table.places)
    (binding : Binding) :
    binding ∈ table.bindings ↔ holderAt binding.signature table = some binding := by
  rw [mem_bindings]
  constructor
  · rintro ⟨placed, member, rfl⟩
    rw [holderAt, ← arranged.own placed member, find?_of_mem _ arranged.distinct placed member]
    rfl
  · intro holds
    obtain ⟨placed, found, rfl⟩ := Option.map_eq_some_iff.mp holds
    exact ⟨placed, List.mem_of_find?_eq_some found, rfl⟩

theorem signatures_distinct (table : BindingTable) (arranged : Arranged table.places) :
    (table.bindings.map (·.signature)).Nodup := by
  have sorted := Sorting.sort_perm
    (fun (left right : Placed) => left.position.atMost right.position) table.places
  have own : table.bindings.map (·.signature) =
      (Sorting.sort (fun (left right : Placed) => left.position.atMost right.position)
        table.places).map (·.signature) := by
    rw [bindings, List.map_map]
    apply List.map_congr_left
    intro placed member
    exact (arranged.own placed (sorted.mem_iff.mp member)).symm
  rw [own]
  exact (sorted.map _).nodup_iff.mpr arranged.distinct

/-- Every place that was claimed is there, and no other. -/
theorem run_places (place : Binding.Signature) (arrivals : List Arrival) :
    place ∈ (run options arrivals).bindings.map (·.signature) ↔
      place ∈ arrivals.map (·.binding.signature) := by
  have arranged := arranged_run options arrivals
  constructor
  · intro member
    obtain ⟨binding, among, rfl⟩ := List.mem_map.mp member
    have holds := (mem_bindings_iff_holds _ arranged binding).mp among
    rw [holderAt_run] at holds
    have claimed := Conflict.holder_claims options _ binding holds
    obtain ⟨arrived, _⟩ := (Conflict.mem_claimsOn _ _ _).mp claimed
    obtain ⟨arrival, came, rfl⟩ := List.mem_map.mp arrived
    exact List.mem_map_of_mem came
  · intro member
    obtain ⟨arrival, came, rfl⟩ := List.mem_map.mp member
    have claimed : arrival.binding ∈ Conflict.claimsOn arrival.binding.signature
        (arrivals.map (·.binding)) :=
      (Conflict.mem_claimsOn _ _ _).mpr ⟨List.mem_map_of_mem came, rfl⟩
    obtain ⟨held, holds⟩ := Conflict.holder_of_claim options _ _ claimed
    have place := ((Conflict.mem_claimsOn _ _ _).mp (Conflict.holder_claims options _ held holds)).2
    refine List.mem_map.mpr ⟨held, (mem_bindings_iff_holds _ arranged held).mpr ?_, place⟩
    rw [holderAt_run, place]
    exact holds

end BindingTable

end Keymap
