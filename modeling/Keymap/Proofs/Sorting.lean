import Keymap.Sorting
import Mathlib.Data.List.Basic
import Mathlib.Data.List.FinRange
import Mathlib.Logic.Equiv.Fin.Basic
import Mathlib.Order.Lattice

/-!
Stable sorting by a rank. Items of one rank come out as they stood (`filter_sort`), and the sorted
list depends on nothing else (`sort_eq_of_ranks`): where items of different ranks stood among each
other leaves no trace. A list may be reordered so that only items of one rank stay as they stood
(`Reordered.filter_eq`).
-/

set_option autoImplicit false

namespace Keymap.Sorting

variable {Item Other : Type}

theorem insert_congr (left right : Item → Item → Bool) (item : Item) (items : List Item)
    (same : ∀ other ∈ items, left item other = right item other) :
    insert left item items = insert right item items := by
  induction items with
  | nil => rfl
  | cons other rest ih =>
    unfold insert
    rw [same other List.mem_cons_self,
      ih fun each member => same each (List.mem_cons_of_mem other member)]

theorem sort_congr (left right : Item → Item → Bool) (items : List Item)
    (same : ∀ a ∈ items, ∀ b ∈ items, left a b = right a b) :
    sort left items = sort right items := by
  induction items with
  | nil => rfl
  | cons item rest ih =>
    have later := ih fun a aIn b bIn =>
      same a (List.mem_cons_of_mem item aIn) b (List.mem_cons_of_mem item bIn)
    rw [sort, sort, later]
    apply insert_congr
    intro other member
    exact same item List.mem_cons_self other
      (List.mem_cons_of_mem item ((mem_sort right other rest).mp member))

theorem sort_of_pairwise (atMost : Item → Item → Bool) (items : List Item)
    (ordered : items.Pairwise fun left right => atMost left right = true) :
    sort atMost items = items := by
  induction items with
  | nil => rfl
  | cons item rest ih =>
    obtain ⟨first, later⟩ := List.pairwise_cons.mp ordered
    rw [sort, ih later]
    cases rest with
    | nil => rfl
    | cons other others => rw [insert, if_pos (first other List.mem_cons_self)]

theorem insert_map (atMost : Other → Other → Bool) (change : Item → Other) (item : Item)
    (items : List Item) :
    insert atMost (change item) (items.map change) =
      (insert (fun a b => atMost (change a) (change b)) item items).map change := by
  induction items with
  | nil => rfl
  | cons other rest ih =>
    simp only [List.map_cons, insert]
    split
    · rfl
    · rw [ih, List.map_cons]

theorem sort_map (atMost : Other → Other → Bool) (change : Item → Other) (items : List Item) :
    sort atMost (items.map change) =
      (sort (fun a b => atMost (change a) (change b)) items).map change := by
  induction items with
  | nil => rfl
  | cons item rest ih => rw [List.map_cons, sort, sort, ih, insert_map]

section Ranked

variable {Rank : Type} [LinearOrder Rank] (rank : Item → Rank)

/-- One item may stand before another if it ranks no higher. -/
def byRank (left right : Item) : Bool := decide (rank left ≤ rank right)

theorem sort_byRank (items : List Item) :
    (sort (byRank rank) items).Pairwise fun left right => rank left ≤ rank right := by
  have ordered := @sort_pairwise _ (byRank rank)
    (fun a b c before after => decide_eq_true
      (le_trans (of_decide_eq_true before) (of_decide_eq_true after)))
    (fun a b => (le_total (rank a) (rank b)).imp decide_eq_true decide_eq_true) items
  exact ordered.imp of_decide_eq_true

theorem filter_insert (value : Rank) (item : Item) (items : List Item) :
    (insert (byRank rank) item items).filter (fun each => rank each = value) =
      (item :: items).filter fun each => rank each = value := by
  induction items with
  | nil => rfl
  | cons other rest ih =>
    unfold insert
    by_cases before : byRank rank item other = true
    · rw [if_pos before]
    · rw [if_neg before, List.filter_cons, ih, List.filter_cons, List.filter_cons, List.filter_cons]
      -- An item only passes others that rank lower.
      have lower : rank other ≠ rank item := by
        intro same
        exact before (decide_eq_true (le_of_eq same.symm))
      by_cases here : rank item = value
      · have notOther : rank other ≠ value := fun there => lower (there.trans here.symm)
        simp [here, notOther]
      · simp [here]

theorem filter_sort (value : Rank) (items : List Item) :
    (sort (byRank rank) items).filter (fun each => rank each = value) =
      items.filter fun each => rank each = value := by
  induction items with
  | nil => rfl
  | cons item rest ih =>
    rw [sort, filter_insert, List.filter_cons, List.filter_cons, ih]

/-- Whether two lists have the same items of each rank, standing in the same order. -/
def SameRanks (left right : List Item) : Prop :=
  ∀ value, left.filter (fun each => rank each = value) =
    right.filter fun each => rank each = value

theorem mem_of_sameRanks {left right : List Item} (same : SameRanks rank left right)
    (item : Item) (member : item ∈ left) : item ∈ right := by
  have kept : item ∈ left.filter fun each => rank each = rank item :=
    List.mem_filter.mpr ⟨member, decide_eq_true rfl⟩
  rw [same] at kept
  exact (List.mem_filter.mp kept).1

theorem rank_head_le (first item : Item) (rest : List Item)
    (sorted : ∀ later ∈ rest, rank first ≤ rank later) (member : item ∈ first :: rest) :
    rank first ≤ rank item := by
  cases member with
  | head => exact le_refl _
  | tail _ later => exact sorted item later

/-- Two sorted lists with the same items of the lowest rank begin with the same item. -/
theorem heads_of_sameRanks (first head : Item) (rest others : List Item)
    (leftSorted : ∀ later ∈ rest, rank first ≤ rank later)
    (rightSorted : ∀ later ∈ others, rank head ≤ rank later)
    (same : SameRanks rank (first :: rest) (head :: others)) : first = head := by
  have level : rank first = rank head := by
    apply le_antisymm
    · apply rank_head_le rank first head rest leftSorted
      exact mem_of_sameRanks rank (fun value => (same value).symm) head List.mem_cons_self
    · apply rank_head_le rank head first others rightSorted
      exact mem_of_sameRanks rank same first List.mem_cons_self
  have heads := same (rank first)
  simp only [List.filter_cons, level, decide_true, if_true, List.cons.injEq] at heads
  exact heads.1

theorem sameRanks_tail (first : Item) (rest others : List Item)
    (same : SameRanks rank (first :: rest) (first :: others)) : SameRanks rank rest others := by
  intro value
  have whole := same value
  rw [List.filter_cons, List.filter_cons] at whole
  split at whole
  · exact (List.cons.inj whole).2
  · exact whole

theorem sorted_ext (left right : List Item)
    (leftSorted : left.Pairwise fun a b => rank a ≤ rank b)
    (rightSorted : right.Pairwise fun a b => rank a ≤ rank b)
    (same : SameRanks rank left right) : left = right := by
  induction left generalizing right with
  | nil =>
    symm
    apply List.eq_nil_iff_forall_not_mem.mpr
    intro item member
    cases mem_of_sameRanks rank (fun value => (same value).symm) item member
  | cons first rest ih =>
    cases right with
    | nil => cases mem_of_sameRanks rank same first List.mem_cons_self
    | cons head others =>
      rw [List.pairwise_cons] at leftSorted rightSorted
      obtain rfl := heads_of_sameRanks rank first head rest others leftSorted.1 rightSorted.1 same
      congr 1
      exact ih others leftSorted.2 rightSorted.2 (sameRanks_tail rank first rest others same)

/-- A stable sort by rank depends only on how the items of each rank stand. -/
theorem sort_eq_of_ranks (left right : List Item) (same : SameRanks rank left right) :
    sort (byRank rank) left = sort (byRank rank) right := by
  apply sorted_ext rank _ _ (sort_byRank rank left) (sort_byRank rank right)
  intro value
  rw [filter_sort, filter_sort, same]

/-- What holds between earlier and later items holds after sorting between those of one rank. -/
theorem sort_stable (earlier : Item → Item → Prop) (items : List Item)
    (stands : items.Pairwise earlier) :
    (sort (byRank rank) items).Pairwise fun left right =>
      rank left < rank right ∨ rank left = rank right ∧ earlier left right := by
  have classes : ∀ value,
      ((sort (byRank rank) items).filter fun each => rank each = value).Pairwise earlier := by
    intro value
    rw [filter_sort]
    exact stands.sublist List.filter_sublist
  have ordered := sort_byRank rank items
  generalize sort (byRank rank) items = sorted at classes ordered
  induction sorted with
  | nil => exact .nil
  | cons first rest ih =>
    rw [List.pairwise_cons] at ordered ⊢
    constructor
    · intro item member
      rcases lt_or_eq_of_le (ordered.1 item member) with below | level
      · exact .inl below
      · right
        refine ⟨level, ?_⟩
        have own := classes (rank first)
        rw [List.filter_cons_of_pos (by simp), List.pairwise_cons] at own
        exact own.1 item (List.mem_filter.mpr ⟨member, by simp [level]⟩)
    · apply ih _ ordered.2
      intro value
      exact (classes value).sublist ((List.sublist_cons_self first rest).filter _)

end Ranked

/-- One list is the other in a different order, in which items that are alike stand as before. -/
def Reordered (alike : Item → Item → Prop) (left right : List Item) : Prop :=
  ∃ place : Fin left.length ≃ Fin right.length,
    (∀ index, right.get (place index) = left.get index) ∧
    ∀ earlier later, earlier < later → alike (left.get earlier) (left.get later) →
      place earlier < place later

namespace Reordered

variable {alike : Item → Item → Prop} {left right : List Item}

theorem mem_iff (reordered : Reordered alike left right) (item : Item) :
    item ∈ right ↔ item ∈ left := by
  obtain ⟨place, same, _⟩ := reordered
  constructor
  · intro member
    obtain ⟨index, rfl⟩ := List.get_of_mem member
    rw [← place.apply_symm_apply index, same]
    exact List.get_mem _ _
  · intro member
    obtain ⟨index, rfl⟩ := List.get_of_mem member
    rw [← same]
    exact List.get_mem _ _

/-- Where a list has the items of a kind. -/
def chosenPlaces (chosen : Item → Bool) (items : List Item) : List (Fin items.length) :=
  (List.finRange items.length).filter fun index => chosen (items.get index)

theorem filter_eq_places (chosen : Item → Bool) (items : List Item) :
    items.filter chosen = (chosenPlaces chosen items).map items.get := by
  conv_lhs => rw [← List.map_get_finRange items]
  rw [List.filter_map]
  rfl

theorem mem_chosenPlaces (chosen : Item → Bool) (items : List Item) (index : Fin items.length) :
    index ∈ chosenPlaces chosen items ↔ chosen (items.get index) = true := by
  simp [chosenPlaces]

theorem chosenPlaces_ascending (chosen : Item → Bool) (items : List Item) :
    (chosenPlaces chosen items).Pairwise (· < ·) :=
  (List.pairwise_lt_finRange items.length).sublist List.filter_sublist

/-- Items that are all alike stand in one list as they stand in the other. -/
theorem filter_eq (reordered : Reordered alike left right) (chosen : Item → Bool)
    (kin : ∀ first ∈ left, ∀ second ∈ left, chosen first = true → chosen second = true →
      alike first second) : right.filter chosen = left.filter chosen := by
  obtain ⟨place, same, ordered⟩ := reordered
  have moved : ((chosenPlaces chosen left).map place).Pairwise (· < ·) := by
    rw [List.pairwise_map]
    apply (chosenPlaces_ascending chosen left).imp_of_mem
    intro earlier later earlierIn laterIn before
    apply ordered earlier later before
    exact kin _ (List.get_mem _ _) _ (List.get_mem _ _) ((mem_chosenPlaces _ _ _).mp earlierIn)
      ((mem_chosenPlaces _ _ _).mp laterIn)
  have members : ∀ index,
      index ∈ (chosenPlaces chosen left).map place ↔ index ∈ chosenPlaces chosen right := by
    intro index
    rw [← place.apply_symm_apply index, List.mem_map_of_injective place.injective,
      mem_chosenPlaces, mem_chosenPlaces, same]
  have placed : (chosenPlaces chosen left).map place = chosenPlaces chosen right := by
    have ascending := chosenPlaces_ascending chosen right
    apply List.Perm.eq_of_pairwise _ moved ascending
    · exact (List.perm_ext_iff_of_nodup (moved.imp ne_of_lt) (ascending.imp ne_of_lt)).mpr members
    · intro a b _ _ forward backward
      exact absurd (forward.trans backward) (lt_irrefl a)
  rw [filter_eq_places, filter_eq_places, ← placed, List.map_map]
  exact List.map_congr_left fun index _ => same index

end Reordered

end Keymap.Sorting
