/-!
Stable sorting. Each item is inserted before the first that it may stand before, from the last
item on, so that items that the order does not tell apart stay as they stood.
-/

set_option autoImplicit false

namespace Keymap.Sorting

variable {Item : Type}

def insert (atMost : Item → Item → Bool) (item : Item) : List Item → List Item
  | [] => [item]
  | other :: rest =>
      if atMost item other then item :: other :: rest else other :: insert atMost item rest

def sort (atMost : Item → Item → Bool) : List Item → List Item
  | [] => []
  | item :: rest => insert atMost item (sort atMost rest)

theorem insert_perm (atMost : Item → Item → Bool) (item : Item) (items : List Item) :
    (insert atMost item items).Perm (item :: items) := by
  induction items with
  | nil => exact List.Perm.refl _
  | cons other rest ih =>
    unfold insert
    split
    · exact List.Perm.refl _
    · exact (ih.cons other).trans (List.Perm.swap item other rest)

theorem sort_perm (atMost : Item → Item → Bool) (items : List Item) :
    (sort atMost items).Perm items := by
  induction items with
  | nil => exact List.Perm.refl _
  | cons item rest ih => exact (insert_perm atMost item _).trans (ih.cons item)

theorem mem_sort (atMost : Item → Item → Bool) (item : Item) (items : List Item) :
    item ∈ sort atMost items ↔ item ∈ items := (sort_perm atMost items).mem_iff

section Ordered

variable {atMost : Item → Item → Bool}
  (transitive : ∀ a b c, atMost a b = true → atMost b c = true → atMost a c = true)
  (total : ∀ a b, atMost a b = true ∨ atMost b a = true)

include transitive total

theorem insert_pairwise (item : Item) (items : List Item)
    (ordered : items.Pairwise fun left right => atMost left right = true) :
    (insert atMost item items).Pairwise fun left right => atMost left right = true := by
  induction items with
  | nil => simp [insert]
  | cons other rest ih =>
    have ⟨first, later⟩ := List.pairwise_cons.mp ordered
    unfold insert
    split
    · next before =>
      refine List.pairwise_cons.mpr ⟨?_, ordered⟩
      intro each member
      rcases List.mem_cons.mp member with rfl | member
      · exact before
      · exact transitive _ _ _ before (first each member)
    · next after =>
      refine List.pairwise_cons.mpr ⟨?_, ih later⟩
      intro each member
      rcases List.mem_cons.mp ((insert_perm atMost item rest).mem_iff.mp member) with rfl | member
      · exact (total other each).resolve_right after
      · exact first each member

theorem sort_pairwise (items : List Item) :
    (sort atMost items).Pairwise fun left right => atMost left right = true := by
  induction items with
  | nil => exact List.Pairwise.nil
  | cons item rest ih => exact insert_pairwise transitive total item _ ih

/-- Where the order tells all items apart, a sorted list is settled by what it holds. -/
theorem sort_eq_sort_iff (antisymmetric : ∀ a b, atMost a b = true → atMost b a = true → a = b)
    (left right : List Item) : sort atMost left = sort atMost right ↔ left.Perm right := by
  constructor
  · intro same
    exact (sort_perm atMost left).symm.trans (same ▸ sort_perm atMost right)
  · intro permuted
    refine List.Perm.eq_of_pairwise ?_ (sort_pairwise transitive total left)
      (sort_pairwise transitive total right)
      ((sort_perm atMost left).trans (permuted.trans (sort_perm atMost right).symm))
    intro a b _ _ forward backward
    exact antisymmetric a b forward backward

end Ordered

/-- Texts by code point. -/
def sortTexts (texts : List String) : List String :=
  sort (fun left right => decide (left ≤ right)) texts

theorem sortTexts_eq_iff (left right : List String) :
    sortTexts left = sortTexts right ↔ left.Perm right := by
  apply sort_eq_sort_iff
  · intro a b c forward later
    simp only [decide_eq_true_eq] at forward later ⊢
    exact String.le_trans forward later
  · intro a b
    simpa only [decide_eq_true_eq] using String.le_total a b
  · intro a b forward backward
    simp only [decide_eq_true_eq] at forward backward
    exact String.le_antisymm forward backward

end Keymap.Sorting
