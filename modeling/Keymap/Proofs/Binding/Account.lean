import Keymap.Proofs.Binding.Table
import Mathlib.Data.List.Dedup

/-!
The account of a table after a run of additions: how many places it has, which additions its
bindings came with, in which order they come out, and what was counted and reported on the way
(`run_accounted`). A binding that comes out depends on the additions to its own place alone.
-/

set_option autoImplicit false

namespace Keymap

namespace Position

/-- Strictly before: by index, then by rank, then by arrival. -/
def Before (left right : Position) : Prop :=
  left.index < right.index ∨ left.index = right.index ∧
    (left.rank < right.rank ∨ left.rank = right.rank ∧ left.arrival < right.arrival)

theorem atMost_iff (left right : Position) :
    left.atMost right = true ↔ left.index < right.index ∨ left.index = right.index ∧
      (left.rank < right.rank ∨ left.rank = right.rank ∧ left.arrival ≤ right.arrival) := by
  simp [atMost]

theorem atMost_trans (first second third : Position) (before : first.atMost second = true)
    (after : second.atMost third = true) : first.atMost third = true := by
  rw [atMost_iff] at before after ⊢
  omega

theorem atMost_total (left right : Position) :
    left.atMost right = true ∨ right.atMost left = true := by
  rw [atMost_iff, atMost_iff]
  omega

theorem before_of_atMost (left right : Position) (ordered : left.atMost right = true)
    (different : left.arrival ≠ right.arrival) : left.Before right := by
  rw [atMost_iff] at ordered
  unfold Before
  omega

end Position

namespace Counters

def total : Counters → Nat
  | [] => 0
  | (_, count) :: rest => count + total rest

theorem total_increment (name : String) (counters : Counters) :
    total (counters.increment name) = total counters + 1 := by
  induction counters with
  | nil => rfl
  | cons entry rest ih =>
    unfold increment
    split
    · simp only [total]
      omega
    · rw [total, total, ih]
      omega

theorem mem_names_increment (asked name : String) (counters : Counters) :
    asked ∈ (counters.increment name).map (·.1) ↔ asked = name ∨ asked ∈ counters.map (·.1) := by
  induction counters with
  | nil => simp [increment]
  | cons entry rest ih =>
    unfold increment
    split
    · next same => simp [same]
    · simp only [List.map_cons, List.mem_cons, ih]
      tauto

theorem names_increment (name : String) (counters : Counters)
    (once : (counters.map (·.1)).Nodup) : ((counters.increment name).map (·.1)).Nodup := by
  induction counters with
  | nil => simp [increment]
  | cons entry rest ih =>
    simp only [List.map_cons, List.nodup_cons] at once
    unfold increment
    split
    · simpa using once
    · next different =>
      simp only [List.map_cons, List.nodup_cons, mem_names_increment]
      exact ⟨fun among => among.elim different once.1, ih once.2⟩

end Counters

namespace BindingTable

/-- Where an addition sorts, given how many there were before it. -/
def Arrival.position (arrival : Arrival) (number : Nat) : Position :=
  ⟨arrival.index, arrival.rank, number⟩

def Arrival.placed (arrival : Arrival) (number : Nat) : Placed :=
  ⟨arrival.binding.signature, arrival.position number, arrival.binding⟩

/-- The binding that comes out of a table for a place. -/
def survivor? (place : Binding.Signature) (table : BindingTable) : Option Binding :=
  table.bindings.find? fun binding => binding.signature = place

variable (options : Options)

/-- The binding that an addition finds in its place after those before it. -/
def met (before : List Arrival) (arrival : Arrival) : Option Binding :=
  Conflict.holder options
    (Conflict.claimsOn arrival.binding.signature (before.map (·.binding)))

/-- Whether an addition gets its place: it is free, or the binding found there is replaced. -/
def takes (before : List Arrival) (arrival : Arrival) : Bool :=
  match met options before arrival with
  | none => true
  | some existing => (Conflict.decide options existing arrival.binding).1 = .replace

/-- Whether no rule decides between an addition and the binding found in its place. -/
def collides (before : List Arrival) (arrival : Arrival) : Bool :=
  match met options before arrival with
  | none => false
  | some existing => (Conflict.decide options existing arrival.binding).2.isNone

/-- An addition whose binding comes out: it gets its place and no later one takes it away. -/
structure Stays (arrivals : List Arrival) (arrival : Arrival) (number : Nat) : Prop where
  came : arrivals[number]? = some arrival
  takes : takes options (arrivals.take number) arrival = true
  last : ∀ later other, number < later → arrivals[later]? = some other →
    other.binding.signature = arrival.binding.signature →
      BindingTable.takes options (arrivals.take later) other = false

/-- The additions that no rule settles, in the order in which they came. -/
def collisions (arrivals : List Arrival) : List Arrival :=
  (arrivals.zipIdx.filter fun entry => collides options (arrivals.take entry.2) entry.1).map (·.1)

theorem arrivals_add (table : BindingTable) (binding : Binding) (index rank : Int) :
    (table.add options binding index rank).arrivals = table.arrivals + 1 := by
  unfold add
  dsimp only
  split <;> rfl

theorem arrivals_run (arrivals : List Arrival) :
    (run options arrivals).arrivals = arrivals.length := by
  induction arrivals using List.reverseRecOn with
  | nil => rfl
  | append_singleton front last ih =>
    rw [run_concat, record, arrivals_add, ih, List.length_append]
    rfl

theorem met_eq (front : List Arrival) (last : Arrival) :
    met options front last =
      (find? last.binding.signature (run options front).places).map (·.binding) :=
  (holderAt_run options last.binding.signature front).symm

theorem length_insert (placed : Placed) (places : List Placed) :
    (insert placed places).length =
      if (find? placed.signature places).isSome then places.length else places.length + 1 := by
  induction places with
  | nil => rfl
  | cons other rest ih =>
    by_cases same : other.signature = placed.signature
    · simp [insert, find?, same]
    · have later : find? placed.signature (other :: rest) = find? placed.signature rest := by
        simp [find?, same]
      rw [insert, if_neg same, List.length_cons, ih, later]
      split <;> rfl

theorem mem_insert (placed other : Placed) (places : List Placed)
    (distinct : (places.map (·.signature)).Nodup) :
    other ∈ insert placed places ↔
      other = placed ∨ other ∈ places ∧ other.signature ≠ placed.signature := by
  induction places with
  | nil => simp [insert]
  | cons first rest ih =>
    simp only [List.map_cons, List.nodup_cons] at distinct
    unfold insert
    by_cases same : first.signature = placed.signature
    · -- No other place in the rest has the signature that is replaced.
      have apart : ∀ each ∈ rest, each.signature ≠ placed.signature := by
        intro each member taken
        apply distinct.1
        rw [same, ← taken]
        exact List.mem_map_of_mem member
      rw [if_pos same, List.mem_cons, List.mem_cons]
      constructor
      · rintro (here | later)
        · exact .inl here
        · exact .inr ⟨.inr later, apart other later⟩
      · rintro (here | ⟨rfl | later, different⟩)
        · exact .inl here
        · exact absurd same different
        · exact .inr later
    · rw [if_neg same, List.mem_cons, List.mem_cons, ih distinct.2]
      constructor
      · rintro (rfl | here | ⟨later, different⟩)
        · exact .inr ⟨.inl rfl, same⟩
        · exact .inl here
        · exact .inr ⟨.inr later, different⟩
      · rintro (here | ⟨here | later, different⟩)
        · exact .inr (.inl here)
        · exact .inl here
        · exact .inr (.inr ⟨later, different⟩)

/-- What one more addition makes of the places. -/
theorem places_concat (front : List Arrival) (last : Arrival) :
    (run options (front ++ [last])).places =
      if takes options front last then
        insert (last.placed front.length) (run options front).places
      else (run options front).places := by
  rw [run_concat, record]
  cases found : find? last.binding.signature (run options front).places with
  | none =>
    have free : takes options front last = true := by simp [takes, met_eq, found]
    rw [add_of_free options _ _ _ _ found, if_pos free, arrivals_run]
    rfl
  | some current =>
    have held : takes options front last =
        decide ((Conflict.decide options current.binding last.binding).1 = .replace) := by
      simp [takes, met_eq, found]
    rw [(add_of_held options _ _ _ _ current found).1, arrivals_run, held]
    simp only [decide_eq_true_eq]
    rfl

/-- An addition that gets its place, and may lose it later. -/
def Gains (arrivals : List Arrival) (arrival : Arrival) (number : Nat) : Prop :=
  arrivals[number]? = some arrival ∧ takes options (arrivals.take number) arrival = true

theorem gains_inside (arrivals : List Arrival) (arrival : Arrival) (number : Nat)
    (gains : Gains options arrivals arrival number) : number < arrivals.length :=
  (List.getElem?_eq_some_iff.mp gains.1).1

theorem stays_iff (arrivals : List Arrival) (arrival : Arrival) (number : Nat) :
    Stays options arrivals arrival number ↔
      Gains options arrivals arrival number ∧
        ∀ later other, number < later → Gains options arrivals other later →
          other.binding.signature ≠ arrival.binding.signature := by
  constructor
  · intro stays
    refine ⟨⟨stays.came, stays.takes⟩, ?_⟩
    intro later other after gains taken
    have lost := stays.last later other after gains.1 taken
    rw [gains.2] at lost
    cases lost
  · rintro ⟨gains, last⟩
    refine ⟨gains.1, gains.2, ?_⟩
    intro later other after came taken
    rw [← Bool.not_eq_true]
    exact fun takesNow => last later other after ⟨came, takesNow⟩ taken

/-- One more addition leaves what those before it gained. -/
theorem gains_concat (front : List Arrival) (last arrival : Arrival) (number : Nat) :
    Gains options (front ++ [last]) arrival number ↔
      Gains options front arrival number ∨
        (takes options front last = true ∧ arrival = last ∧ number = front.length) := by
  unfold Gains
  rcases Nat.lt_trichotomy number front.length with inside | rfl | outside
  · rw [List.getElem?_append_left inside, List.take_append_of_le_length (Nat.le_of_lt inside)]
    constructor
    · exact .inl
    · rintro (gains | ⟨_, _, rfl⟩)
      · exact gains
      · exact absurd inside (Nat.lt_irrefl _)
  · rw [List.getElem?_concat_length, List.take_left, List.getElem?_eq_none (Nat.le_refl _)]
    constructor
    · rintro ⟨came, takesNow⟩
      cases came
      exact .inr ⟨takesNow, rfl, rfl⟩
    · rintro (⟨came, _⟩ | ⟨takesNow, rfl, _⟩)
      · cases came
      · exact ⟨rfl, takesNow⟩
  · have missing : (front ++ [last])[number]? = none := by
      apply List.getElem?_eq_none
      rw [List.length_append, List.length_singleton]
      omega
    rw [missing, List.getElem?_eq_none (Nat.le_of_lt outside)]
    constructor
    · rintro ⟨came, _⟩
      cases came
    · rintro (⟨came, _⟩ | ⟨_, _, rfl⟩)
      · cases came
      · exact absurd outside (Nat.lt_irrefl _)

theorem stays_concat (front : List Arrival) (last arrival : Arrival) (number : Nat) :
    Stays options (front ++ [last]) arrival number ↔
      (takes options front last = true ∧ arrival = last ∧ number = front.length) ∨
      (Stays options front arrival number ∧
        (takes options front last = true →
          last.binding.signature ≠ arrival.binding.signature)) := by
  simp only [stays_iff, gains_concat]
  constructor
  · rintro ⟨earlier | now, kept⟩
    · right
      refine ⟨⟨earlier, fun later other after gains => kept later other after (.inl gains)⟩, ?_⟩
      intro takesNow
      apply kept front.length last (gains_inside options front arrival number earlier)
      exact .inr ⟨takesNow, rfl, rfl⟩
    · exact .inl now
  · rintro (⟨takesNow, rfl, rfl⟩ | ⟨⟨earlier, kept⟩, last⟩)
    · refine ⟨.inr ⟨takesNow, rfl, rfl⟩, ?_⟩
      rintro later other after (gains | ⟨_, _, rfl⟩)
      · exact absurd (gains_inside options front other later gains) (Nat.not_lt_of_lt after)
      · exact absurd after (Nat.lt_irrefl _)
    · refine ⟨.inl earlier, ?_⟩
      rintro later other after (gains | ⟨takesNow, rfl, _⟩)
      · exact kept later other after gains
      · exact last takesNow

/-- A place is there for each addition that stays, and says which one that is. -/
theorem mem_places_run (arrivals : List Arrival) (placed : Placed) :
    placed ∈ (run options arrivals).places ↔
      ∃ arrival number, Stays options arrivals arrival number ∧
        placed = arrival.placed number := by
  induction arrivals using List.reverseRecOn with
  | nil =>
    constructor
    · intro member
      cases member
    · rintro ⟨arrival, number, stays, _⟩
      cases stays.came
  | append_singleton front last ih =>
    rw [places_concat]
    have arranged := arranged_run options front
    cases taken : takes options front last with
    | true =>
      rw [if_pos rfl, mem_insert _ _ _ arranged.distinct, ih]
      constructor
      · rintro (rfl | ⟨⟨arrival, number, stays, rfl⟩, different⟩)
        · exact ⟨last, front.length,
            (stays_concat options front last last _).mpr (.inl ⟨taken, rfl, rfl⟩), rfl⟩
        · exact ⟨arrival, number, (stays_concat options front last arrival number).mpr
            (.inr ⟨stays, fun _ => Ne.symm different⟩), rfl⟩
      · rintro ⟨arrival, number, stays, rfl⟩
        rcases (stays_concat options front last arrival number).mp stays with
          ⟨_, rfl, rfl⟩ | ⟨earlier, kept⟩
        · exact .inl rfl
        · exact .inr ⟨⟨arrival, number, earlier, rfl⟩, Ne.symm (kept taken)⟩
    | false =>
      rw [if_neg (by simp), ih]
      constructor
      · rintro ⟨arrival, number, stays, rfl⟩
        exact ⟨arrival, number, (stays_concat options front last arrival number).mpr
          (.inr ⟨stays, fun takesNow => by rw [taken] at takesNow; cases takesNow⟩), rfl⟩
      · rintro ⟨arrival, number, stays, rfl⟩
        rcases (stays_concat options front last arrival number).mp stays with
          ⟨takesNow, _, _⟩ | ⟨earlier, _⟩
        · rw [taken] at takesNow
          cases takesNow
        · exact ⟨arrival, number, earlier, rfl⟩

/-- What comes out for a place is the holder among the bindings added to it. -/
theorem survivor?_run (place : Binding.Signature) (arrivals : List Arrival) :
    survivor? place (run options arrivals) =
      Conflict.holder options (Conflict.claimsOn place (arrivals.map (·.binding))) := by
  have arranged := arranged_run options arrivals
  rw [← holderAt_run]
  cases found : survivor? place (run options arrivals) with
  | some held =>
    have stands : held.signature = place := by simpa using List.find?_some found
    have out := (mem_bindings_iff_holds _ arranged held).mp (List.mem_of_find?_eq_some found)
    rw [stands] at out
    exact out.symm
  | none =>
    cases holds : holderAt place (run options arrivals) with
    | none => rfl
    | some held =>
      rw [holderAt_run] at holds
      have claimed := Conflict.holder_claims options _ held holds
      have stands := ((Conflict.mem_claimsOn _ _ _).mp claimed).2
      subst stands
      rw [← holderAt_run] at holds
      have out := (mem_bindings_iff_holds _ arranged held).mpr holds
      have missing := List.find?_eq_none.mp found held out
      simp at missing

theorem survivor?_alone (place : Binding.Signature) (arrivals : List Arrival) :
    survivor? place (run options arrivals) =
      survivor? place
        (run options (arrivals.filter fun arrival => arrival.binding.signature = place)) := by
  rw [survivor?_run, survivor?_run]
  congr 1
  simp only [Conflict.claimsOn, List.filter_map, List.filter_filter, Function.comp_def,
    Bool.and_self]

theorem size_run (arrivals : List Arrival) :
    (run options arrivals).size = (arrivals.map (·.binding.signature)).dedup.length := by
  have listed : (run options arrivals).bindings.length = (run options arrivals).places.length := by
    rw [bindings, List.length_map]
    exact (Sorting.sort_perm _ _).length_eq
  have same : ((run options arrivals).bindings.map (·.signature)).Perm
      (arrivals.map (·.binding.signature)).dedup := by
    apply (List.perm_ext_iff_of_nodup (signatures_distinct _ (arranged_run options arrivals))
      (List.nodup_dedup _)).mpr
    intro place
    rw [run_places, List.mem_dedup]
  have lengths := same.length_eq
  rw [List.length_map] at lengths
  exact listed.symm.trans lengths

/-- Each addition finds its place free or is counted. -/
theorem counted_run (arrivals : List Arrival) :
    (run options arrivals).counters.total + (run options arrivals).size = arrivals.length := by
  induction arrivals using List.reverseRecOn with
  | nil => rfl
  | append_singleton front last ih =>
    unfold size at ih ⊢
    rw [run_concat, record, List.length_append, List.length_singleton]
    cases found : find? last.binding.signature (run options front).places with
    | none =>
      rw [add_of_free options _ _ _ _ found]
      dsimp only
      rw [length_insert, found]
      simp only [Option.isSome_none, Bool.false_eq_true, if_false]
      omega
    | some current =>
      obtain ⟨places, counters, _⟩ := add_of_held options _ _ last.index last.rank current found
      have length : (add options (run options front) last.binding last.index last.rank).places.length
          = (run options front).places.length := by
        rw [places]
        split
        · rw [length_insert, found]
          rfl
        · rfl
      rw [counters, Counters.total_increment, length]
      omega

theorem names_run (arrivals : List Arrival) :
    ((run options arrivals).counters.map (·.1)).Nodup := by
  induction arrivals using List.reverseRecOn with
  | nil => exact List.nodup_nil
  | append_singleton front last ih =>
    rw [run_concat, record]
    cases found : find? last.binding.signature (run options front).places with
    | none =>
      rw [add_of_free options _ _ _ _ found]
      exact ih
    | some current =>
      rw [(add_of_held options _ _ _ _ current found).2.1]
      exact Counters.names_increment _ _ ih

theorem collisions_concat (front : List Arrival) (last : Arrival) :
    collisions options (front ++ [last]) =
      collisions options front ++ if collides options front last then [last] else [] := by
  have earlier : (front.zipIdx.filter fun entry =>
        collides options ((front ++ [last]).take entry.2) entry.1) =
      front.zipIdx.filter fun entry => collides options (front.take entry.2) entry.1 := by
    apply List.filter_congr
    intro entry member
    have inside := (List.getElem?_eq_some_iff.mp (List.mem_zipIdx_iff_getElem?.mp member)).1
    rw [List.take_append_of_le_length (Nat.le_of_lt inside)]
  unfold collisions
  rw [List.zipIdx_append, List.filter_append, List.map_append, earlier]
  congr 1
  simp only [List.zipIdx_cons, List.zipIdx_nil, Nat.zero_add, List.filter_cons, List.filter_nil,
    List.take_left']
  split <;> rfl

theorem reported_run (arrivals : List Arrival) :
    (run options arrivals).problems =
      (collisions options arrivals).map fun arrival => Conflict.duplicate arrival.binding := by
  induction arrivals using List.reverseRecOn with
  | nil => rfl
  | append_singleton front last ih =>
    rw [run_concat, record, collisions_concat, List.map_append, ← ih]
    cases found : find? last.binding.signature (run options front).places with
    | none =>
      rw [add_of_free options _ _ _ _ found]
      simp [collides, met_eq, found]
    | some current =>
      rw [(add_of_held options _ _ _ _ current found).2.2]
      simp only [collides, met_eq, found, Option.map_some, Option.isNone_iff_eq_none]
      split <;> rfl

theorem nodup_places (arrivals : List Arrival) : (run options arrivals).places.Nodup :=
  List.Nodup.of_map _ (arranged_run options arrivals).distinct

/-- The bindings come out by the positions of the additions that stay. -/
theorem ordered_run (arrivals : List Arrival) :
    ∃ kept : List (Arrival × Nat),
      (∀ arrival number, (arrival, number) ∈ kept ↔ Stays options arrivals arrival number) ∧
      (kept.Pairwise fun left right =>
        (left.1.position left.2).Before (right.1.position right.2)) ∧
      (run options arrivals).bindings = kept.map (·.1.binding) := by
  let atMost := fun (left right : Placed) => left.position.atMost right.position
  let sorted := Sorting.sort atMost (run options arrivals).places
  let entry := fun (placed : Placed) =>
    ((⟨placed.binding, placed.position.index, placed.position.rank⟩ : Arrival),
      placed.position.arrival)
  have sound : ∀ placed ∈ sorted, ∃ arrival number, Stays options arrivals arrival number ∧
      placed = arrival.placed number := fun placed member =>
    (mem_places_run options arrivals placed).mp ((Sorting.mem_sort _ _ _).mp member)
  refine ⟨sorted.map entry, ?_, ?_, ?_⟩
  · intro arrival number
    rw [List.mem_map]
    constructor
    · rintro ⟨placed, member, same⟩
      obtain ⟨source, place, stays, rfl⟩ := sound placed member
      cases same
      exact stays
    · intro stays
      exact ⟨arrival.placed number, (Sorting.mem_sort _ _ _).mpr
        ((mem_places_run options arrivals _).mpr ⟨arrival, number, stays, rfl⟩), rfl⟩
  · rw [List.pairwise_map]
    have ordered : sorted.Pairwise fun left right => atMost left right = true :=
      Sorting.sort_pairwise (fun a b c => Position.atMost_trans a.position b.position c.position)
        (fun a b => Position.atMost_total a.position b.position) _
    have once : sorted.Nodup :=
      (Sorting.sort_perm _ _).nodup_iff.mpr (nodup_places options arrivals)
    refine (ordered.and once).imp_of_mem ?_
    rintro left right leftIn rightIn ⟨before, different⟩
    obtain ⟨first, number, stays, rfl⟩ := sound left leftIn
    obtain ⟨second, other, staysToo, rfl⟩ := sound right rightIn
    apply Position.before_of_atMost _ _ before
    -- Additions with one number are one addition.
    intro same
    change number = other at same
    subst same
    have equal : first = second := Option.some.inj (stays.came.symm.trans staysToo.came)
    exact different (by rw [equal])
  · rw [List.map_map]
    rfl

/-- The account of a table for the additions that made it. -/
structure Accounted (arrivals : List Arrival) (table : BindingTable) : Prop where
  /-- There is one place for each signature that was added. -/
  size : table.size = (arrivals.map (·.binding.signature)).dedup.length
  /-- What comes out for a place was added to it. -/
  added : ∀ place held, table.survivor? place = some held →
    held.signature = place ∧ held ∈ arrivals.map (·.binding)
  /-- What comes out for a place is the same if nothing is added to other places. -/
  alone : ∀ place, table.survivor? place =
    (run options (arrivals.filter fun arrival => arrival.binding.signature = place)).survivor? place
  /-- The bindings that stay come out strictly by index, rank and arrival. -/
  ordered : ∃ kept : List (Arrival × Nat),
    (∀ arrival number, (arrival, number) ∈ kept ↔ Stays options arrivals arrival number) ∧
    (kept.Pairwise fun left right =>
      (left.1.position left.2).Before (right.1.position right.2)) ∧
    table.bindings = kept.map (·.1.binding)
  /-- Every outcome has one counter. -/
  names : (table.counters.map (·.1)).Nodup
  counted : table.counters.total + table.size = arrivals.length
  /-- One duplicate is reported for each addition that no rule settles, in their order. -/
  reported : table.problems =
    (collisions options arrivals).map fun arrival => Conflict.duplicate arrival.binding
  duplicates : table.problems.length = table.counters.count "duplicate"

/-- Every run of additions is accounted for. -/
theorem run_accounted (arrivals : List Arrival) :
    Accounted options arrivals (run options arrivals) where
  size := size_run options arrivals
  added := by
    intro place held found
    rw [survivor?_run] at found
    have claimed := Conflict.holder_claims options _ held found
    exact ((Conflict.mem_claimsOn _ _ _).mp claimed).symm
  alone := fun place => survivor?_alone options place arrivals
  ordered := ordered_run options arrivals
  names := names_run options arrivals
  counted := counted_run options arrivals
  reported := reported_run options arrivals
  duplicates := (count_duplicates_run options arrivals).symm

end BindingTable

end Keymap
