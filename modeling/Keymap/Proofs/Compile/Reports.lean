import Keymap.Proofs.Compile.Failures
import Keymap.Proofs.Compile.Stages
import Keymap.Proofs.Schema.Refusal

/-!
What is reported of a document that is compiled: everything that is wrong with it, section by
section and entry by entry (`reported_of_flaw`).
-/

set_option autoImplicit false

namespace Keymap

namespace Schema

variable {Entry : Type}

theorem mem_readEntries_notes (read : String → Value → Except Defect Entry) (label : String)
    (index : Nat) (values : List Value) (place : Nat) (value : Value) (defect : Defect)
    (stands : values[place]? = some value)
    (refused : read (itemLabel label (index + place)) value = .error defect) :
    .defect defect ∈ (readEntries read label index values).notes := by
  induction values generalizing index place with
  | nil => simp at stands
  | cons first rest ih =>
    unfold readEntries
    cases place with
    | zero =>
      cases stands
      rw [show read (itemLabel label index) value = .error defect from refused]
      exact Noted.mem_first_notes (Noted.note _) _ _ (List.mem_singleton_self _)
    | succ place =>
      rw [show index + (place + 1) = index + 1 + place by omega] at refused
      have later := ih (index + 1) place (by simpa using stands) refused
      split
      · exact Noted.mem_first_notes _ _ _ later
      · exact Noted.mem_notes_andThen (Noted.note _) _ () rfl _ later

theorem mem_readKinds_notes (known : List Kind) (index : Nat) (values : List Value) (place : Nat)
    (value : Value) (defect : Defect) (stands : values[place]? = some value)
    (refused : readKind (itemLabel "kind" (index + place)) value = .error defect) :
    .defect defect ∈ (readKinds known index values).notes := by
  induction values generalizing known index place with
  | nil => simp at stands
  | cons first rest ih =>
    unfold readKinds
    dsimp only
    cases place with
    | zero =>
      cases stands
      rw [show readKind (itemLabel "kind" index) value = .error defect from refused]
      exact Noted.mem_first_notes (Noted.note _) _ _ (List.mem_singleton_self _)
    | succ place =>
      rw [show index + (place + 1) = index + 1 + place by omega] at refused
      have later := fun known => ih known (index + 1) place (by simpa using stands) refused
      split
      · exact Noted.mem_notes_andThen (Noted.note _) _ () rfl _ (later known)
      · split
        · exact Noted.mem_notes_andThen (Noted.note _) _ () rfl _ (later known)
        · exact later _

/-- What is reported while a document is read into its sections. -/
theorem readSpecification_reports (root : Fields) (spec : Specification)
    (ended : (readSpecification (.object root)).result = .ok spec) :
    ∃ modeEntries kindEntries defaultEntries, entries root "mode" = .ok modeEntries ∧
      entries root "kind" = .ok kindEntries ∧ entries root "default" = .ok defaultEntries ∧
      ∀ problem,
        (unknownNames sectionNames root ≠ [] ∧
            problem = .unknownSections (unknownNames sectionNames root)) ∨
          problem ∈ (readEntries readMode "mode" 0 modeEntries).notes ∨
          problem ∈ (readKinds [] 0 kindEntries).notes ∨
          problem ∈ (readEntries readDefaultEntry "default" 0 defaultEntries).notes →
        problem ∈ (readSpecification (.object root)).notes := by
  obtain ⟨_, mapped, ended⟩ := Noted.andThen_ok _ _ _ ended
  cases mapped
  obtain ⟨_, noted, ended⟩ := Noted.andThen_ok _ _ _ ended
  obtain ⟨_, header, ended⟩ := Noted.andThen_ok _ _ _ ended
  obtain ⟨_, bindings, ended⟩ := Noted.andThen_ok _ _ _ ended
  obtain ⟨modeEntries, modesGiven, ended⟩ := Noted.andThen_ok _ _ _ ended
  obtain ⟨_, modes, ended⟩ := Noted.andThen_ok _ _ _ ended
  obtain ⟨kindEntries, kindsGiven, ended⟩ := Noted.andThen_ok _ _ _ ended
  obtain ⟨_, kinds, ended⟩ := Noted.andThen_ok _ _ _ ended
  obtain ⟨defaultEntries, defaultsGiven, ended⟩ := Noted.andThen_ok _ _ _ ended
  refine ⟨modeEntries, kindEntries, defaultEntries, modesGiven, kindsGiven, defaultsGiven, ?_⟩
  intro problem left
  refine Noted.mem_notes_andThen (Noted.ofExcept _) _ root rfl problem ?_
  rcases left with ⟨strange, rfl⟩ | left
  · exact Noted.mem_first_notes (Noted.note _) _ _ (by simp [Noted.note, strange])
  refine Noted.mem_notes_andThen _ _ _ noted problem ?_
  refine Noted.mem_notes_andThen _ _ _ header problem ?_
  refine Noted.mem_notes_andThen _ _ _ bindings problem ?_
  refine Noted.mem_notes_andThen _ _ _ modesGiven problem ?_
  rcases left with left | left
  · exact Noted.mem_first_notes _ _ problem left
  refine Noted.mem_notes_andThen _ _ _ modes problem ?_
  refine Noted.mem_notes_andThen _ _ _ kindsGiven problem ?_
  rcases left with left | left
  · exact Noted.mem_first_notes _ _ problem left
  refine Noted.mem_notes_andThen _ _ _ kinds problem ?_
  refine Noted.mem_notes_andThen _ _ _ defaultsGiven problem ?_
  exact Noted.mem_first_notes _ _ problem left

end Schema

namespace Compile

open Schema (itemLabel)

variable (options : Options)

/-- What is wrong with an entry of the document, and how it is reported. -/
inductive EntryFlaw (spec : Specification) (index : Nat) : Value → Problem → Prop
  | shape (value : Value) (bad : asEntry value = none) :
      EntryFlaw spec index value (.defect (.notMapping (itemLabel "bind" index)))
  | reference (entry : Fields) (problem : Problem) (noted : problem ∈
      ((DefaultTable.ofEntries spec.defaults).2.apply (itemLabel "bind" index) entry).1) :
      EntryFlaw spec index (.object entry) problem
  | definition (entry : Fields) (defect : Defect)
      (refused : prepared spec index entry = .error defect) :
      EntryFlaw spec index (.object entry) (.defect defect)
  | foreach (entry resolved : Fields) (ready : prepared spec index entry = .ok resolved)
      (defect : Defect) (refused : (Foreach.expand spec.definitions (itemLabel "bind" index)
        resolved).result = .error (.defect defect)) :
      EntryFlaw spec index (.object entry) (.defect defect)
  | expression (entry resolved : Fields) (ready : prepared spec index entry = .ok resolved)
      (complaint : Complaint) (noted : complaint ∈ ((Evaluator.new options.errorLimit).note
        (Foreach.expand spec.definitions (itemLabel "bind" index) resolved).notes).reported) :
      EntryFlaw spec index (.object entry) (.complaint complaint)
  | binding (entry resolved : Fields) (ready : prepared spec index entry = .ok resolved)
      (copies : List Fields) (expanded : (Foreach.expand spec.definitions (itemLabel "bind" index)
        resolved).result = .ok copies) (copy : Fields) (among : copy ∈ copies) (defect : Defect)
      (refused : (Schema.readBinding options spec.kinds (itemLabel "bind" index) index
        (.object copy)).result = .error defect) :
      EntryFlaw spec index (.object entry) (.defect defect)
  | doubt (entry resolved : Fields) (ready : prepared spec index entry = .ok resolved)
      (copies : List Fields) (expanded : (Foreach.expand spec.definitions (itemLabel "bind" index)
        resolved).result = .ok copies) (copy : Fields) (among : copy ∈ copies) (problem : Problem)
      (noted : problem ∈ (Schema.readBinding options spec.kinds (itemLabel "bind" index) index
        (.object copy)).notes) :
      EntryFlaw spec index (.object entry) problem

theorem readExpanded_reports (kinds : List Kind) (label : String) (index : Int)
    (copies : List Fields) (copy : Fields) (among : copy ∈ copies) (problem : Problem)
    (left : problem ∈ (Schema.readBinding options kinds label index (.object copy)).notes ∨
      ∃ defect, problem = .defect defect ∧
        (Schema.readBinding options kinds label index (.object copy)).result = .error defect) :
    problem ∈ (readExpanded options kinds label index copies).1 := by
  induction copies with
  | nil => cases among
  | cons first rest ih =>
    unfold readExpanded
    dsimp only
    rcases List.mem_cons.mp among with rfl | later
    · rcases left with left | ⟨defect, rfl, refused⟩
      · split <;> simp [left]
      · rw [refused]
        simp
    · have reported := ih later
      split <;> simp [reported]

/-- What is reported of the copies of an entry is reported of the entry. -/
theorem copies_report (spec : Specification) (index : Nat) (entry resolved : Fields)
    (ready : prepared spec index entry = .ok resolved) (copies : List Fields)
    (expanded : (Foreach.expand spec.definitions (itemLabel "bind" index) resolved).result =
      .ok copies) (problem : Problem) (left : problem ∈
        (readExpanded options spec.kinds (itemLabel "bind" index) index copies).1) :
    problem ∈ (readEntry options spec (DefaultTable.ofEntries spec.defaults).2 index
      (.object entry)).notes := by
  refine Noted.mem_notes_andThen (expandEntry _ _ _ _ entry) _ copies ?_ problem ?_
  · rw [expandEntry_ready options spec index entry resolved ready, expanded]
    rfl
  · exact Noted.mem_first_notes (Noted.note _) _ problem left

theorem readEntry_reports (spec : Specification) (index : Nat) (value : Value) (problem : Problem)
    (flaw : EntryFlaw options spec index value problem) :
    problem ∈
      (readEntry options spec (DefaultTable.ofEntries spec.defaults).2 index value).notes := by
  cases flaw with
  | shape _ bad => simp [readEntry, bad]
  | reference entry _ noted =>
    refine Noted.mem_first_notes (expandEntry _ _ _ _ entry) _ problem ?_
    cases ready : prepared spec index entry with
    | error defect => simp [expandEntry_refused options spec index entry defect ready, noted]
    | ok resolved => simp [expandEntry_ready options spec index entry resolved ready, noted]
  | definition entry defect refused =>
    refine Noted.mem_first_notes (expandEntry _ _ _ _ entry) _ _ ?_
    simp [expandEntry_refused options spec index entry defect refused]
  | foreach entry resolved ready defect refused =>
    refine Noted.mem_first_notes (expandEntry _ _ _ _ entry) _ _ ?_
    simp [expandEntry_ready options spec index entry resolved ready, refused, settleFault]
  | expression entry resolved ready complaint noted =>
    refine Noted.mem_first_notes (expandEntry _ _ _ _ entry) _ _ ?_
    simp [expandEntry_ready options spec index entry resolved ready, noted]
  | binding entry resolved ready copies expanded copy among defect refused =>
    refine copies_report options spec index entry resolved ready copies expanded _ ?_
    exact readExpanded_reports options _ _ _ copies copy among _ (.inr ⟨defect, rfl, refused⟩)
  | doubt entry resolved ready copies expanded copy among _ noted =>
    refine copies_report options spec index entry resolved ready copies expanded _ ?_
    exact readExpanded_reports options _ _ _ copies copy among _ (.inl noted)

theorem readEntries_reports (spec : Specification) (index : Nat) (values : List Value)
    (place : Nat) (value : Value) (stands : values[place]? = some value) (problem : Problem)
    (ends : (readEntries options spec (DefaultTable.ofEntries spec.defaults).2 index values).Ends)
    (left : problem ∈ (readEntry options spec (DefaultTable.ofEntries spec.defaults).2
      (index + place) value).notes) :
    problem ∈
      (readEntries options spec (DefaultTable.ofEntries spec.defaults).2 index values).notes := by
  induction values generalizing index place with
  | nil => simp at stands
  | cons first rest ih =>
    cases place with
    | zero =>
      cases stands
      exact Noted.mem_first_notes _ _ problem left
    | succ place =>
      obtain ⟨⟨bindings, passed⟩, later⟩ := (Noted.both_ends_iff _ _ _).mp ends
      rw [show index + (place + 1) = index + 1 + place by omega] at left
      refine Noted.mem_notes_andThen _ _ bindings passed problem ?_
      refine Noted.mem_first_notes (readEntries _ _ _ _ rest) _ problem ?_
      exact ih (index + 1) place (by simpa using stands) later left

theorem expandEntries_reports (spec : Specification) (ends : (expandEntries options spec).Ends)
    (problem : Problem)
    (flaw : problem ∈ (DefaultTable.ofEntries spec.defaults).1 ∨
      ∃ index value, spec.bindings[index]? = some value ∧
        EntryFlaw options spec index value problem) :
    problem ∈ (expandEntries options spec).notes := by
  obtain ⟨_, _, ends⟩ := (Noted.andThen_ends_iff (Noted.note _) _).mp ends
  rcases flaw with noted | ⟨index, value, stands, flaw⟩
  · exact Noted.mem_first_notes (Noted.note _) _ problem noted
  · refine Noted.mem_notes_andThen (Noted.note _) _ () rfl problem ?_
    refine readEntries_reports options spec 0 _ index value stands problem ends ?_
    rw [Nat.zero_add]
    exact readEntry_reports options spec index value problem flaw

/-- What is wrong with a document, and how it is reported. -/
inductive Flaw (root : Fields) (spec : Specification) (expanded : List Binding) : Problem → Prop
  | sections (strange : Schema.unknownNames Schema.sectionNames root ≠ []) :
      Flaw root spec expanded (.unknownSections (Schema.unknownNames Schema.sectionNames root))
  | mode (values : List Value) (given : Schema.entries root "mode" = .ok values) (index : Nat)
      (value : Value) (stands : values[index]? = some value) (defect : Defect)
      (refused : Schema.readMode (itemLabel "mode" index) value = .error defect) :
      Flaw root spec expanded (.defect defect)
  | kind (values : List Value) (given : Schema.entries root "kind" = .ok values) (index : Nat)
      (value : Value) (stands : values[index]? = some value) (defect : Defect)
      (refused : Schema.readKind (itemLabel "kind" index) value = .error defect) :
      Flaw root spec expanded (.defect defect)
  | kindTable (values : List Value) (given : Schema.entries root "kind" = .ok values)
      (problem : Problem) (noted : problem ∈ (Schema.readKinds [] 0 values).notes) :
      Flaw root spec expanded problem
  | default (values : List Value) (given : Schema.entries root "default" = .ok values)
      (index : Nat) (value : Value) (stands : values[index]? = some value) (defect : Defect)
      (refused : Schema.readDefaultEntry (itemLabel "default" index) value = .error defect) :
      Flaw root spec expanded (.defect defect)
  | defaultTable (problem : Problem) (noted : problem ∈ (DefaultTable.ofEntries spec.defaults).1) :
      Flaw root spec expanded problem
  | modeTable (problem : Problem) (noted : problem ∈ (ModeTable.ofModes spec.modes).1) :
      Flaw root spec expanded problem
  | entry (index : Nat) (value : Value) (stands : spec.bindings[index]? = some value)
      (problem : Problem) (flaw : EntryFlaw options spec index value problem) :
      Flaw root spec expanded problem
  | selection (problem : Problem) (noted : problem ∈ (ModeTable.expand
      (ModeTable.ofModes spec.modes).2 (Sequence.splitAll (byPriority expanded))).1) :
      Flaw root spec expanded problem
  | sequence (problem : Problem) (noted : problem ∈ (Sequence.compile options
      (placed (ModeTable.ofModes spec.modes).2 expanded)).table.problems) :
      Flaw root spec expanded problem

theorem specification_reports (spec : Specification) (expanded : List Binding)
    (expanding : (expandEntries options spec).result = .ok expanded) (problem : Problem)
    (left : problem ∈ (ModeTable.ofModes spec.modes).1 ∨
      problem ∈ (expandEntries options spec).notes ∨
      problem ∈ (ModeTable.expand (ModeTable.ofModes spec.modes).2
        (Sequence.splitAll (byPriority expanded))).1 ∨
      problem ∈ (Sequence.compile options
        (placed (ModeTable.ofModes spec.modes).2 expanded)).table.problems) :
    problem ∈ (specification options spec).notes := by
  rcases left with left | left
  · exact Noted.mem_first_notes (Noted.note _) _ problem left
  refine Noted.mem_notes_andThen (Noted.note _) _ () rfl problem ?_
  rcases left with left | left
  · exact Noted.mem_first_notes _ _ problem left
  refine Noted.mem_notes_andThen _ _ expanded expanding problem ?_
  rcases left with left | left
  · exact Noted.mem_first_notes (Noted.note _) _ problem left
  refine Noted.mem_notes_andThen (Noted.note _) _ () rfl problem ?_
  exact Noted.mem_first_notes (Noted.note _) _ problem left

/-- Everything that is wrong with a document whose entries can be expanded is reported. -/
theorem reported_of_flaw (root : Fields) (spec : Specification) (expanded : List Binding)
    (read : (Schema.readSpecification (.object root)).result = .ok spec)
    (expanding : (expandEntries options spec).result = .ok expanded) (problem : Problem)
    (flaw : Flaw options root spec expanded problem) :
    problem ∈ (Schema.readSpecification (.object root)).notes ++
      (specification options spec).notes := by
  obtain ⟨modeEntries, kindEntries, defaultEntries, modes, kinds, defaults, sections⟩ :=
    Schema.readSpecification_reports root spec read
  have compiled := specification_reports options spec expanded expanding problem
  have entries := expandEntries_reports options spec ⟨expanded, expanding⟩ problem
  rw [List.mem_append]
  cases flaw with
  | sections strange => exact .inl (sections _ (.inl ⟨strange, rfl⟩))
  | mode values given index value stands defect refused =>
    cases modes.symm.trans given
    refine .inl (sections _ (.inr (.inl ?_)))
    exact Schema.mem_readEntries_notes _ _ 0 _ index value defect stands (by rwa [Nat.zero_add])
  | kind values given index value stands defect refused =>
    cases kinds.symm.trans given
    refine .inl (sections _ (.inr (.inr (.inl ?_))))
    exact Schema.mem_readKinds_notes [] 0 _ index value defect stands (by rwa [Nat.zero_add])
  | kindTable values given _ noted =>
    cases kinds.symm.trans given
    exact .inl (sections _ (.inr (.inr (.inl noted))))
  | default values given index value stands defect refused =>
    cases defaults.symm.trans given
    refine .inl (sections _ (.inr (.inr (.inr ?_))))
    exact Schema.mem_readEntries_notes _ _ 0 _ index value defect stands (by rwa [Nat.zero_add])
  | defaultTable _ noted => exact .inr (compiled (.inr (.inl (entries (.inl noted)))))
  | modeTable _ noted => exact .inr (compiled (.inl noted))
  | entry index value stands _ flaw =>
    exact .inr (compiled (.inr (.inl (entries (.inr ⟨index, value, stands, flaw⟩)))))
  | selection _ noted => exact .inr (compiled (.inr (.inr (.inl noted))))
  | sequence _ noted => exact .inr (compiled (.inr (.inr (.inr noted))))

end Compile

end Keymap
