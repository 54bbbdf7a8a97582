import Keymap.Proofs.Entry.Expansion

/-!
Expansions do not depend on the order of their variables. With the variables in another order an
entry stands for the same entries and leaves the same complaints, in another order: one entry for
each combination, in which every field is filled in the scope of that combination
(`expansion_reordered`).
-/

set_option autoImplicit false

namespace Keymap

namespace Value

/-- A filled mapping holds under each name what was there, filled. -/
theorem get?_fillFields (scope fields filled : Fields) (name : String)
    (ended : (fillFields scope fields).result = .ok filled) :
    (fields.get? name = none → filled.get? name = none) ∧
    ∀ value, fields.get? name = some value →
      ∃ result, (value.fill scope).result = .ok result ∧ filled.get? name = some result := by
  induction fields generalizing filled with
  | nil =>
    cases ended
    refine ⟨fun _ => rfl, fun _ found => ?_⟩
    cases found
  | cons field rest ih =>
    obtain ⟨known, held⟩ := field
    rw [fillFields, Noted.bind_eq] at ended
    obtain ⟨first, passed, ended⟩ := Noted.andThen_ok _ _ _ ended
    obtain ⟨others, later, ended⟩ := Noted.andThen_ok _ _ _ ended
    cases ended
    by_cases same : known = name
    · simp only [Fields.get?, if_pos same]
      refine ⟨fun absent => (by cases absent), fun value found => ?_⟩
      cases found
      exact ⟨first, passed, rfl⟩
    · simp only [Fields.get?, if_neg same]
      exact ih others later

end Value

namespace Foreach

/-- Whether a mapping is an entry without its variables, filled in a scope. Where all prefixes are
meant, the prefixes are kept as they are. -/
structure FilledFrom (entry scope binding : Fields) : Prop where
  field : ∀ name value, name ≠ "foreach" → entry.get? name = some value →
    (name = "prefixes" → value ≠ .text Legacy.allPrefixes) →
      ∃ result, (value.fill scope).result = .ok result ∧ binding.get? name = some result
  anyPrefixes : entry.get? "prefixes" = some (.text Legacy.allPrefixes) →
    binding.get? "prefixes" = some (.text Legacy.allPrefixes)
  unranged : binding.get? "foreach" = none
  nothingElse : ∀ name, entry.get? name = none → binding.get? name = none

theorem ofEntry_cases (entry : Fields) :
    (entry.get? "prefixes" = some (.text Legacy.allPrefixes) ∧
      Template.ofEntry entry = ⟨(entry.erase "foreach").erase "prefixes", true⟩) ∨
    (entry.get? "prefixes" ≠ some (.text Legacy.allPrefixes) ∧
      Template.ofEntry entry = ⟨entry.erase "foreach", false⟩) := by
  have kept : (entry.erase "foreach").get? "prefixes" = entry.get? "prefixes" := by
    rw [Fields.get?_erase, if_neg (by decide)]
  unfold Template.ofEntry
  simp only [kept]
  split
  · next content found =>
    by_cases every : content = Legacy.allPrefixes
    · exact .inl ⟨by rw [found, every], if_pos every⟩
    · exact .inr ⟨by simp [found, every], if_neg every⟩
  · next other => exact .inr ⟨other _, rfl⟩

section Filled

variable (entry scope filled : Fields)

theorem filledFrom_anyPrefixes (every : entry.get? "prefixes" = some (.text Legacy.allPrefixes))
    (done : (Value.fillFields scope ((entry.erase "foreach").erase "prefixes")).result =
      .ok filled) :
    FilledFrom entry scope (filled.insert "prefixes" (.text Legacy.allPrefixes)) := by
  have lookup := fun name => Value.get?_fillFields _ _ filled name done
  simp only [Fields.get?_erase] at lookup
  constructor
  · intro name value ranged given notEvery
    have other : name ≠ "prefixes" := by
      rintro rfl
      exact notEvery rfl (Option.some.inj (given.symm.trans every))
    obtain ⟨result, within, found⟩ := (lookup name).2 value (by simp [other, ranged, given])
    exact ⟨result, within, by simp [Fields.get?_insert, other, found]⟩
  · intro _
    simp [Fields.get?_insert]
  · have absent := (lookup "foreach").1 (by simp)
    simp [Fields.get?_insert, absent]
  · intro name missing
    have other : name ≠ "prefixes" := by
      rintro rfl
      cases missing.symm.trans every
    have absent := (lookup name).1 (by simp [missing])
    simp [Fields.get?_insert, other, absent]

theorem filledFrom_ownPrefixes (own : entry.get? "prefixes" ≠ some (.text Legacy.allPrefixes))
    (done : (Value.fillFields scope (entry.erase "foreach")).result = .ok filled) :
    FilledFrom entry scope filled := by
  have lookup := fun name => Value.get?_fillFields _ _ filled name done
  simp only [Fields.get?_erase] at lookup
  constructor
  · intro name value ranged given _
    exact (lookup name).2 value (by simp [ranged, given])
  · exact fun every => absurd every own
  · exact (lookup "foreach").1 (by simp)
  · intro name missing
    exact (lookup name).1 (by simp [missing])

end Filled

theorem fill_filledFrom (definitions entry combination binding : Fields)
    (ended : ((Template.ofEntry entry).fill definitions combination).result = .ok binding) :
    FilledFrom entry (definitions.overlay combination) binding := by
  rw [Template.fill] at ended
  dsimp only at ended
  split at ended
  · cases ended
  · next filled done =>
    rcases ofEntry_cases entry with ⟨every, form⟩ | ⟨own, form⟩
    · rw [form] at ended done
      cases ended
      exact filledFrom_anyPrefixes entry _ filled every done
    · rw [form] at ended done
      cases ended
      exact filledFrom_ownPrefixes entry _ filled own done

section Reordering

variable (template : Template) (definitions : Fields)

/-- An entry is filled alike for a combination whatever the order in it. -/
theorem fill_unordered (left right : Fields) (distinct : left.names.Nodup)
    (same : left.Perm right) :
    template.fill definitions left = template.fill definitions right := by
  have distinctToo : right.names.Nodup := (same.map Prod.fst).nodup_iff.mp distinct
  apply Template.fill_congr
  intro name _
  rw [Fields.get?_overlay _ _ distinct, Fields.get?_overlay _ _ distinctToo,
    Fields.get?_reordered left right same distinct]

theorem fillings_reordered (ranges others : List Variable) (same : ranges.Perm others)
    (distinct : (ranges.map Prod.fst).Nodup) :
    ((combinations ranges).map (template.fill definitions)).Perm
      ((combinations others).map (template.fill definitions)) := by
  apply combinations_reordered ranges others same
  intro left right named alike
  exact fill_unordered template definitions left right (named.nodup_iff.mpr distinct) alike

end Reordering

/-- The entries that an entry stands for, one for each combination of the values of its variables.
In another order of the variables they are the same, with the same complaints. -/
theorem expansion_reordered (definitions : Fields) (label : String)
    (entry given reordered : Fields) (held : entry.get? "foreach" = some (.object given))
    (distinct : given.names.Nodup) (same : given.Perm reordered) (ranges : List Variable)
    (read : readVariables label (.object given) = .ok ranges) (bindings : List Fields)
    (ended : (expand definitions label entry).result = .ok bindings) :
    (∃ others : List Fields,
      let turned := expand definitions label (entry.insert "foreach" (.object reordered))
      turned.result = .ok others ∧ bindings.Perm others ∧
        (expand definitions label entry).notes.Perm turned.notes) ∧
    bindings.length = (ranges.map fun range => range.2.length).prod ∧
    (∀ combination, combination ∈ combinations ranges ↔
      List.Forall₂ (fun choice range => choice.1 = range.1 ∧ choice.2 ∈ range.2)
        combination ranges) ∧
    List.Forall₂ (fun combination binding =>
        let scope := definitions.overlay combination
        (∀ name, scope.get? name = (combination.get? name).or (definitions.get? name)) ∧
          FilledFrom entry scope binding)
      (combinations ranges) bindings := by
  have heldToo : (entry.insert "foreach" (.object reordered)).get? "foreach" =
      some (.object reordered) := by rw [Fields.get?_insert, if_pos rfl]
  have readEach : given.mapM (readVariable label) = .ok ranges := by
    rw [← readEachVariable_eq]
    exact read
  obtain ⟨others, readOthers, alike⟩ := mapM_reordered _ given reordered same ranges readEach
  have readToo : readVariables label (.object reordered) = .ok others := by
    rw [← readEachVariable_eq] at readOthers
    exact readOthers
  have named := names_of_read label given ranges readEach
  have single : (ranges.map Prod.fst).Nodup := named ▸ distinct
  have expanded := expand_of_read definitions label entry _ held ranges read
  have turned := expand_of_read definitions label _ _ heldToo others readToo
  rw [ofEntry_insert_variables] at turned
  rw [expanded] at ended ⊢
  rw [turned]
  have each := Noted.each_of_inTurn _ (combinations ranges) bindings ended
  refine ⟨Noted.inTurn_reordered _ _
    (fillings_reordered (Template.ofEntry entry) definitions ranges others alike single)
    bindings ended, ?_, mem_combinations_iff ranges, ?_⟩
  · rw [← each.length_eq, length_combinations]
  · have apart (combination : Fields) (member : combination ∈ combinations ranges) :
        combination.names.Nodup := names_combination ranges combination member ▸ single
    refine ((List.forall₂_and_left _ _).mpr ⟨apart, each⟩).imp ?_
    rintro combination binding ⟨once, filled⟩
    exact ⟨Fields.get?_overlay definitions combination once,
      fill_filledFrom definitions entry combination binding filled⟩

/-- An entry with two variables, one of which hides a definition. -/
def moves : Fields :=
  [("key", .text "ctrl+\x7b\x7bkey\x7d\x7d"),
   ("command", .text "\x7b\x7bkind\x7d\x7d \x7b\x7bkey\x7d\x7d \x7b\x7bplace\x7d\x7d"),
   ("prefixes", .text Legacy.allPrefixes),
   ("foreach", .object [("key", .list [.text "a", .text "b"]),
     ("place", .list [Value.ofInt 1, .text "end", .null])])]

theorem moves_reordered :
    ∃ bindings others : List Fields,
      (expand [("kind", .text "select"), ("key", .text "z")] "bind[0]" moves).result =
        .ok bindings ∧
      (expand [("kind", .text "select"), ("key", .text "z")] "bind[0]"
        (moves.insert "foreach" (.object [("place", .list [Value.ofInt 1, .text "end", .null]),
          ("key", .list [.text "a", .text "b"])]))).result = .ok others ∧
      bindings.Perm others ∧ bindings.length = 6 := by
  obtain ⟨bindings, ended, _⟩ := ended_of_check
    (expand [("kind", .text "select"), ("key", .text "z")] "bind[0]" moves).result
    (fun _ => true) (by decide +kernel)
  obtain ⟨⟨others, endedToo, same, _⟩, count, _⟩ := expansion_reordered
    [("kind", .text "select"), ("key", .text "z")] "bind[0]" moves _
    [("place", .list [Value.ofInt 1, .text "end", .null]),
      ("key", .list [.text "a", .text "b"])] rfl (by decide) (List.Perm.swap _ _ _)
    [("key", [.text "a", .text "b"]), ("place", [Value.ofInt 1, .text "end", .null])] rfl
    bindings ended
  exact ⟨bindings, others, ended, endedToo, same, count⟩

end Foreach

end Keymap
