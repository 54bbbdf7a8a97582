import Keymap.Mode.Table
import Mathlib.Data.List.Nodup

/-!
The modes of a table have different names, and the copies of bindings in them each have one mode:
apart from its mode and from how it came there a copy is the binding that was copied.
-/

set_option autoImplicit false

namespace Keymap

namespace ModeTable

theorem mem_copies (modes : List Mode) (binding copy : Binding) :
    copy ∈ (copies modes binding).2 ↔
      ∃ implicit mode, copy = place binding implicit mode ∧
        mode ∈ bif implicit
          then implicitModes modes (select modes binding.key binding.modes).2
          else (select modes binding.key binding.modes).2 := by
  simp only [copies, List.mem_append, List.mem_map]
  constructor
  · rintro (⟨mode, selected, rfl⟩ | ⟨mode, fallen, rfl⟩)
    · exact ⟨false, mode, rfl, selected⟩
    · exact ⟨true, mode, rfl, fallen⟩
  · rintro ⟨implicit, mode, rfl, member⟩
    cases implicit with
    | false => exact .inl ⟨mode, member, rfl⟩
    | true => exact .inr ⟨mode, member, rfl⟩

theorem expand_cons (modes : List Mode) (binding : Binding) (rest : List Binding) :
    (expand modes (binding :: rest)).2 = (copies modes binding).2 ++ (expand modes rest).2 := rfl

theorem expand_eq (modes : List Mode) (bindings : List Binding) :
    (expand modes bindings).2 = bindings.flatMap fun binding => (copies modes binding).2 := by
  induction bindings with
  | nil => rfl
  | cons binding rest ih => rw [expand_cons, ih, List.flatMap_cons]

theorem mem_expand (modes : List Mode) (bindings : List Binding) (copy : Binding) :
    copy ∈ (expand modes bindings).2 ↔
      ∃ binding ∈ bindings, copy ∈ (copies modes binding).2 := by
  induction bindings with
  | nil => simp [expand]
  | cons binding rest ih => simp [expand_cons, ih]

theorem any_named (modes : List Mode) (name : String) :
    (modes.any fun other => decide (other.name = name)) = true ↔ name ∈ modes.map (·.name) := by
  simp [List.any_eq_true, List.mem_map]

theorem nodup_snoc_named (modes : List Mode) (last : Mode)
    (different : (modes.map (·.name)).Nodup) (new : last.name ∉ modes.map (·.name)) :
    ((modes ++ [last]).map (·.name)).Nodup := by
  rw [List.map_append, List.map_singleton, List.nodup_append']
  exact ⟨different, List.nodup_singleton _, List.disjoint_singleton.mpr new⟩

theorem distinct_names (known declared : List Mode) (different : (known.map (·.name)).Nodup) :
    ((distinct known declared).2.map (·.name)).Nodup := by
  induction declared generalizing known with
  | nil => exact different
  | cons mode rest ih =>
    unfold distinct
    split
    · exact ih known different
    · next new =>
      exact ih _ (nodup_snoc_named known mode different (mt (any_named known mode.name).mpr new))

/-- Which modes are marked is all that choosing the default changes. -/
theorem withOneDefault_keeps {Held : Type} (held : Mode → Held)
    (unmarked : ∀ (mode : Mode) (flag : Bool), held { mode with isDefault := flag } = held mode)
    (modes : List Mode) : (withOneDefault modes).2.map held = modes.map held := by
  unfold withOneDefault
  split
  · rfl
  · rw [List.map_cons, List.map_cons, unmarked]
  · rfl
  · rw [List.map_map]
    apply List.map_congr_left
    intro mode _
    simp only [Function.comp_apply]
    split
    · exact unmarked mode false
    · rfl

theorem withOneDefault_names (modes : List Mode) :
    (withOneDefault modes).2.map (·.name) = modes.map (·.name) :=
  withOneDefault_keeps (·.name) (fun _ _ => rfl) modes

theorem withCapture_names (modes : List Mode) (different : (modes.map (·.name)).Nodup) :
    ((withCapture modes).map (·.name)).Nodup := by
  unfold withCapture
  split
  · exact different
  · next absent =>
    exact nodup_snoc_named modes _ different (mt (any_named modes _).mpr absent)

theorem checkFallback_name (names : List String) (mode : Mode) :
    (checkFallback names mode).2.name = mode.name := by
  unfold checkFallback
  split
  · split <;> rfl
  · rfl

theorem checkFallbacks_names (names : List String) (modes : List Mode) :
    (checkFallbacks names modes).2.map (·.name) = modes.map (·.name) := by
  induction modes with
  | nil => rfl
  | cons mode rest ih =>
    unfold checkFallbacks
    rw [List.map_cons, List.map_cons, checkFallback_name, ih]

/-- No two modes of a table share a name. -/
theorem ofModes_names (declared : List Mode) : ((ofModes declared).2.map (·.name)).Nodup := by
  cases declared with
  | nil => decide
  | cons first rest =>
    show ((checkFallbacks _
      (withCapture (withOneDefault (distinct [] (first :: rest)).2).2)).2.map (·.name)).Nodup
    rw [checkFallbacks_names]
    apply withCapture_names
    rw [withOneDefault_names]
    exact distinct_names [] (first :: rest) .nil

theorem mem_distinct (known declared : List Mode) (mode : Mode)
    (member : mode ∈ (distinct known declared).2) : mode ∈ known ∨ mode ∈ declared := by
  induction declared generalizing known with
  | nil => exact .inl member
  | cons first rest ih =>
    unfold distinct at member
    split at member
    · exact (ih known member).imp_right (.tail _)
    · rcases ih (known ++ [first]) member with earlier | later
      · rcases List.mem_append.mp earlier with before | now
        · exact .inl before
        · exact .inr (List.mem_singleton.mp now ▸ .head _)
      · exact .inr (.tail _ later)

theorem mem_withCapture (modes : List Mode) (mode : Mode) (member : mode ∈ withCapture modes) :
    mode ∈ modes ∨ mode = Mode.capture := by
  unfold withCapture at member
  split at member
  · exact .inl member
  · simpa using member

theorem ofModes_named (declared : List Mode) (named : ∀ mode ∈ declared, mode.name ≠ "")
    (mode : Mode) (member : mode ∈ (ofModes declared).2) : mode.name ≠ "" := by
  cases declared with
  | nil =>
    rcases List.mem_pair.mp member with rfl | rfl <;> decide
  | cons first rest =>
    have name : mode.name ∈ (withCapture
        (withOneDefault (distinct [] (first :: rest)).2).2).map (·.name) := by
      rw [← checkFallbacks_names]
      exact List.mem_map_of_mem member
    obtain ⟨source, among, same⟩ := List.mem_map.mp name
    rw [← same]
    rcases mem_withCapture _ source among with marked | rfl
    · have unmarked : source.name ∈ (distinct [] (first :: rest)).2.map (·.name) := by
        rw [← withOneDefault_names]
        exact List.mem_map_of_mem marked
      obtain ⟨origin, given, same⟩ := List.mem_map.mp unmarked
      rw [← same]
      exact named origin ((mem_distinct [] _ origin given).resolve_left (by simp))
    · decide

theorem mem_firsts (seen names : List String) (name : String) :
    name ∈ firsts seen names ↔ name ∈ names ∧ name ∉ seen := by
  induction names generalizing seen with
  | nil => simp [firsts]
  | cons first rest ih =>
    unfold firsts
    by_cases known : first ∈ seen
    · have contained : seen.contains first = true := by simpa using known
      rw [if_pos contained, ih seen, List.mem_cons]
      constructor
      · rintro ⟨later, new⟩
        exact ⟨.inr later, new⟩
      · rintro ⟨rfl | later, new⟩
        · exact absurd known new
        · exact ⟨later, new⟩
    · have absent : ¬ seen.contains first = true := by simpa using known
      rw [if_neg absent, List.mem_cons, ih (first :: seen), List.mem_cons, List.mem_cons]
      constructor
      · rintro (rfl | ⟨later, new⟩)
        · exact ⟨.inl rfl, known⟩
        · exact ⟨.inr later, fun old => new (.inr old)⟩
      · rintro ⟨rfl | later, new⟩
        · exact .inl rfl
        · by_cases same : name = first
          · exact .inl same
          · exact .inr ⟨later, fun old => old.elim same new⟩

theorem nodup_firsts (seen names : List String) : (firsts seen names).Nodup := by
  induction names generalizing seen with
  | nil => exact .nil
  | cons first rest ih =>
    unfold firsts
    split
    · exact ih seen
    · refine List.nodup_cons.mpr ⟨?_, ih (first :: seen)⟩
      intro again
      exact ((mem_firsts _ _ _).mp again).2 (.head _)

theorem copies_eq (modes : List Mode) (binding : Binding) :
    (copies modes binding).2 =
      (select modes binding.key binding.modes).2.map (place binding false) ++
      (implicitModes modes (select modes binding.key binding.modes).2).map (place binding true) :=
  rfl

theorem implicitModes_nodup (modes : List Mode) (explicit : List String) :
    (implicitModes modes explicit).Nodup := nodup_firsts _ _

/-- A mode has implicit copies if one of its name falls back to an explicit mode. -/
theorem mem_implicitModes_iff (modes : List Mode) (explicit : List String) (name : String) :
    name ∈ implicitModes modes explicit ↔
      ∃ mode ∈ modes, mode.name = name ∧
        ∃ target ∈ mode.fallback, target ≠ "" ∧ target ∈ explicit := by
  rw [implicitModes, mem_firsts, List.mem_flatMap]
  constructor
  · rintro ⟨⟨target, chosen, fallen⟩, _⟩
    obtain ⟨mode, among, same⟩ := List.mem_map.mp fallen
    obtain ⟨given, falls⟩ := List.mem_filter.mp among
    obtain ⟨falls, named⟩ : mode.fallback = some target ∧ target ≠ "" := by simpa using falls
    exact ⟨mode, given, same, target, falls, named, chosen⟩
  · rintro ⟨mode, given, rfl, target, falls, named, chosen⟩
    refine ⟨⟨target, chosen, List.mem_map.mpr ⟨mode, ?_, rfl⟩⟩, List.not_mem_nil⟩
    exact List.mem_filter.mpr ⟨given, by simpa using ⟨falls, named⟩⟩

/-- Of copies in different modes a test for one mode leaves at most one. -/
theorem filter_placed (binding : Binding) (implicit : Bool) (mode : String)
    (test : Binding → Bool) (names : List String) (once : names.Nodup)
    (tested : ∀ name, test (place binding implicit name) = decide (name = mode)) :
    (names.map (place binding implicit)).filter test =
      if mode ∈ names then [place binding implicit mode] else [] := by
  have asked : test ∘ place binding implicit = fun name => decide (name = mode) := funext tested
  rw [List.filter_map, asked, List.filter_eq]
  by_cases member : mode ∈ names
  · rw [if_pos member, List.count_eq_one_of_mem once member]
    rfl
  · rw [if_neg member, List.count_eq_zero_of_not_mem member]
    rfl

section Distinct

variable (modes : List Mode) (different : (modes.map (·.name)).Nodup)

include different

theorem select_nodup (key : String) (chosen : Option (List String)) :
    (select modes key chosen).2.Nodup := by
  unfold select
  split
  · have marked : (modes.filter (·.isDefault)).Sublist modes := List.filter_sublist
    have names : (defaultNames modes).Nodup := different.sublist (marked.map _)
    exact names.sublist (List.take_sublist 1 _)
  · dsimp only
    split
    · exact nodup_firsts _ _
    · exact different.filter _

theorem copies_in_mode (binding : Binding) (mode : String) :
    ((copies modes binding).2.filter fun copy => copy.mode? = some mode) =
      (if mode ∈ (select modes binding.key binding.modes).2 then [place binding false mode] else []) ++
      (if mode ∈ implicitModes modes (select modes binding.key binding.modes).2
        then [place binding true mode] else []) := by
  rw [copies_eq, List.filter_append]
  congr 1
  · exact filter_placed binding false mode _ _ (select_nodup modes different _ _)
      (fun name => by simp [place, Binding.mode?])
  · exact filter_placed binding true mode _ _ (implicitModes_nodup modes _)
      (fun name => by simp [place, Binding.mode?])

theorem mode_of_name {first second : Mode} (firstGiven : first ∈ modes) (secondGiven : second ∈ modes)
    (same : first.name = second.name) : first = second :=
  List.inj_on_of_nodup_map different firstGiven secondGiven same

theorem mem_implicitModes (mode : Mode) (given : mode ∈ modes) (explicit : List String) :
    mode.name ∈ implicitModes modes explicit ↔
      ∃ target ∈ explicit, mode.fallback = some target ∧ target ≠ "" := by
  rw [mem_implicitModes_iff]
  constructor
  · rintro ⟨other, otherGiven, same, target, falls, named, chosen⟩
    obtain rfl := mode_of_name modes different otherGiven given same
    exact ⟨target, chosen, falls, named⟩
  · rintro ⟨target, chosen, falls, named⟩
    exact ⟨mode, given, rfl, target, falls, named, chosen⟩

theorem copies_in_root (binding : Binding) (root : Mode) (given : root ∈ modes)
    (falls : root.fallback = none) :
    ((copies modes binding).2.filter fun copy => copy.mode? = some root.name) =
      if root.name ∈ (select modes binding.key binding.modes).2
        then [place binding false root.name] else [] := by
  have notImplicit : root.name ∉ implicitModes modes (select modes binding.key binding.modes).2 := by
    rw [mem_implicitModes modes different root given]
    rintro ⟨target, _, targeted, _⟩
    rw [falls] at targeted
    cases targeted
  rw [copies_in_mode modes different, if_neg notImplicit, List.append_nil]

/-- Where a binding does not select a mode that falls back to another, it has a copy there exactly
if it selects that one. -/
theorem copies_in_fallback (binding : Binding) (mode : Mode) (root : String) (given : mode ∈ modes)
    (falls : mode.fallback = some root) (named : root ≠ "")
    (unselected : mode.name ∉ (select modes binding.key binding.modes).2) :
    ((copies modes binding).2.filter fun copy => copy.mode? = some mode.name) =
      if root ∈ (select modes binding.key binding.modes).2
        then [place binding true mode.name] else [] := by
  have implicit : mode.name ∈ implicitModes modes (select modes binding.key binding.modes).2 ↔
      root ∈ (select modes binding.key binding.modes).2 := by
    rw [mem_implicitModes modes different mode given, falls]
    constructor
    · rintro ⟨target, chosen, same, _⟩
      exact Option.some.inj same ▸ chosen
    · intro chosen
      exact ⟨root, chosen, rfl, named⟩
  rw [copies_in_mode modes different, if_neg unselected, List.nil_append]
  simp only [implicit]

/-- A mode that no binding selects and that falls back to a root gets a copy of each binding of
that mode, in their order, and nothing else. -/
theorem expand_fallback (bindings : List Binding) (mode root : Mode) (given : mode ∈ modes)
    (rootGiven : root ∈ modes) (falls : mode.fallback = some root.name) (named : root.name ≠ "")
    (rootFalls : root.fallback = none)
    (unselected : ∀ binding ∈ bindings,
      mode.name ∉ (select modes binding.key binding.modes).2) :
    ((expand modes bindings).2.filter fun copy => copy.mode? = some mode.name) =
      ((expand modes bindings).2.filter fun copy => copy.mode? = some root.name).map
        (place · true mode.name) := by
  -- Each binding has a copy in the mode exactly if it has one in the root.
  induction bindings with
  | nil => rfl
  | cons binding rest ih =>
    have later := ih fun other member => unselected other (.tail _ member)
    rw [expand_cons, List.filter_append, List.filter_append, List.map_append, later,
      copies_in_root modes different binding root rootGiven rootFalls,
      copies_in_fallback modes different binding mode root.name given falls named
        (unselected binding (.head _))]
    split <;> rfl

theorem expand_root (bindings : List Binding) (root : Mode) (given : root ∈ modes)
    (falls : root.fallback = none) (copy : Binding) (made : copy ∈ (expand modes bindings).2)
    (here : copy.mode? = some root.name) :
    copy.modes = some [root.name] ∧ copy.implicit = false := by
  obtain ⟨binding, _, copied⟩ := (mem_expand modes bindings copy).mp made
  have among : copy ∈ (copies modes binding).2.filter fun copy => copy.mode? = some root.name :=
    List.mem_filter.mpr ⟨copied, by simpa using here⟩
  rw [copies_in_root modes different binding root given falls] at among
  split at among
  · rw [List.mem_singleton.mp among]
    exact ⟨rfl, rfl⟩
  · cases among

end Distinct

end ModeTable

end Keymap
