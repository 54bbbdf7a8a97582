import Keymap.Proofs.Mode.Table

/-!
The table of the declared modes is settled: the names are different, one mode is the default, there
is a mode for capturing keys, and modes fall back only to modes of the table. A settled table is its
own table, without a problem (`ofModes_of_settled`), so repairing a table again changes nothing
(`ofModes_settled`).
-/

set_option autoImplicit false

namespace Keymap

namespace ModeTable

structure Settled (table : List Mode) : Prop where
  distinct : (table.map (·.name)).Nodup
  oneDefault : ∃ chosen, defaultNames table = [chosen]
  capture : Mode.capture.name ∈ table.map (·.name)
  fallbacks : ∀ mode ∈ table, ∀ target, mode.fallback = some target →
    target ∈ table.map (·.name)

/-- The modes of which no earlier one has the name. -/
def firstDeclared (declared : List Mode) : List Mode :=
  declared.eraseDupsBy fun later earlier => later.name == earlier.name

/-- Where no mode is declared there is the implied one. -/
def orImplied (declared : List Mode) : List Mode :=
  if declared.isEmpty then [Mode.implied] else declared

/-- The first mode that is marked, or else the first of all. -/
def chosenDefault? (modes : List Mode) : Option String :=
  ((modes.find? (·.isDefault)).or modes.head?).map (·.name)

theorem firstDeclared_cons (mode : Mode) (rest : List Mode) :
    firstDeclared (mode :: rest) =
      mode :: firstDeclared (rest.filter fun other => other.name ≠ mode.name) := by
  simp [firstDeclared, List.eraseDupsBy_cons]

theorem distinct_eq (known declared : List Mode) :
    (distinct known declared).2 =
      known ++ firstDeclared (declared.filter fun mode => mode.name ∉ known.map (·.name)) := by
  induction declared generalizing known with
  | nil => simp [distinct, firstDeclared]
  | cons mode rest ih =>
    unfold distinct
    split
    · next old =>
      rw [List.filter_cons_of_neg (by simpa using (any_named known mode.name).mp old)]
      exact ih known
    · next new =>
      rw [List.filter_cons_of_pos (by simpa using mt (any_named known mode.name).mpr new),
        firstDeclared_cons, ih,
        List.filter_filter, List.append_assoc, List.singleton_append]
      congr 3
      apply List.filter_congr
      intro other _
      rw [List.map_append, List.map_singleton, ← Bool.decide_and, decide_eq_decide, List.mem_append,
        List.mem_singleton, not_or, and_comm]

theorem distinct_of_new (declared : List Mode) :
    (distinct [] declared).2 = firstDeclared declared := by
  rw [distinct_eq, List.nil_append]
  simp

theorem firstDeclared_names : (declared : List Mode) →
    (firstDeclared declared).map (·.name) = (declared.map (·.name)).eraseDups
  | [] => rfl
  | mode :: rest => by
      rw [firstDeclared_cons, List.map_cons, firstDeclared_names, List.map_cons, List.eraseDups_cons,
        List.filter_map]
      congr 4
      funext other
      exact decide_not
termination_by declared => declared.length
decreasing_by exact Nat.lt_succ_of_le (List.length_filter_le _ rest)

theorem defaultNames_head (modes : List Mode) :
    (defaultNames modes).head? = (modes.find? (·.isDefault)).map (·.name) := by
  rw [defaultNames, List.head?_map, List.head?_filter]

theorem chosenDefault?_eq (modes : List Mode) : chosenDefault? modes =
    ((defaultNames modes).head?).or (modes.head?.map (·.name)) := by
  rw [chosenDefault?, Option.map_or, defaultNames_head]

theorem defaultNames_cons (mode : Mode) (rest : List Mode) :
    defaultNames (mode :: rest) =
      if mode.isDefault then mode.name :: defaultNames rest else defaultNames rest := by
  unfold defaultNames
  cases marked : mode.isDefault <;> simp [marked]

theorem defaultNames_unmarked (chosen : String) (modes : List Mode) :
    (defaultNames (modes.map fun mode =>
        if mode.isDefault && mode.name ≠ chosen then { mode with isDefault := false } else mode)) =
      (defaultNames modes).filter (· = chosen) := by
  induction modes with
  | nil => rfl
  | cons mode rest ih =>
    rw [List.map_cons, defaultNames_cons, defaultNames_cons, ih]
    cases marked : mode.isDefault with
    | false => simp [marked]
    | true => by_cases same : mode.name = chosen <;> simp [marked, same]

/-- Of modes with different names the chosen one is left as the only default. -/
theorem withOneDefault_chooses (modes : List Mode) (different : (modes.map (·.name)).Nodup) :
    defaultNames (withOneDefault modes).2 = (chosenDefault? modes).toList := by
  have once : (defaultNames modes).Nodup := different.sublist (List.filter_sublist.map _)
  rw [chosenDefault?_eq]
  unfold withOneDefault
  split
  · rfl
  · next first others unmarked =>
    rw [unmarked]
    have later : defaultNames others = [] := by
      rw [defaultNames, List.map_eq_nil_iff, List.filter_eq_nil_iff] at unmarked ⊢
      exact fun mode member => unmarked mode (List.mem_cons_of_mem _ member)
    rw [defaultNames_cons, later]
    rfl
  · next marked =>
    rw [marked]
    rfl
  · next modes _ _ chosen others _ _ marked =>
    rw [defaultNames_unmarked, List.filter_eq, List.count_eq_one_of_mem once (marked ▸ .head _),
      marked]
    rfl

theorem defaultNames_withCapture (modes : List Mode) :
    defaultNames (withCapture modes) = defaultNames modes := by
  unfold withCapture
  split
  · rfl
  · simp [defaultNames, Mode.capture, Mode.named]

theorem withCapture_names_eq (modes : List Mode) :
    (withCapture modes).map (·.name) = modes.map (·.name) ++
      if Mode.capture.name ∈ modes.map (·.name) then [] else [Mode.capture.name] := by
  unfold withCapture
  simp only [any_named]
  split
  · rw [List.append_nil]
  · rw [List.map_append, List.map_singleton]

theorem checkFallback_default (names : List String) (mode : Mode) :
    (checkFallback names mode).2.isDefault = mode.isDefault := by
  unfold checkFallback
  split
  · split <;> rfl
  · rfl

theorem checkFallbacks_cons (names : List String) (mode : Mode) (rest : List Mode) :
    (checkFallbacks names (mode :: rest)).2 =
      (checkFallback names mode).2 :: (checkFallbacks names rest).2 := rfl

theorem checkFallbacks_defaults (names : List String) (modes : List Mode) :
    defaultNames (checkFallbacks names modes).2 = defaultNames modes := by
  induction modes with
  | nil => rfl
  | cons mode rest ih =>
    rw [checkFallbacks_cons, defaultNames_cons, defaultNames_cons, ih, checkFallback_default,
      checkFallback_name]

theorem checkFallback_known (names : List String) (mode : Mode) (named : mode.fallback ≠ some "")
    (target : String) (falls : (checkFallback names mode).2.fallback = some target) :
    target ∈ names := by
  unfold checkFallback at falls
  split at falls
  · next written has =>
    split at falls
    · next known =>
      obtain rfl : written = target := Option.some.inj (has.symm.trans falls)
      have nonempty : written ≠ "" := fun empty => named (empty ▸ has)
      simpa [nonempty] using known
    · cases falls
  · next rootless =>
    rw [rootless] at falls
    cases falls

theorem checkFallbacks_known (names : List String) (modes : List Mode)
    (named : ∀ mode ∈ modes, mode.fallback ≠ some "") :
    ∀ mode ∈ (checkFallbacks names modes).2, ∀ target, mode.fallback = some target →
      target ∈ names := by
  induction modes with
  | nil => exact fun _ member => absurd member List.not_mem_nil
  | cons first rest ih =>
    obtain ⟨firstNamed, restNamed⟩ := List.forall_mem_cons.mp named
    rw [checkFallbacks_cons]
    exact List.forall_mem_cons.mpr ⟨checkFallback_known names first firstNamed, ih restNamed⟩

theorem checkFallbacks_nothing (names : List String) (modes : List Mode)
    (known : ∀ mode ∈ modes, ∀ target, mode.fallback = some target → target ∈ names) :
    checkFallbacks names modes = ([], modes) := by
  induction modes with
  | nil => rfl
  | cons mode rest ih =>
    obtain ⟨here, later⟩ := List.forall_mem_cons.mp known
    have kept : checkFallback names mode = ([], mode) := by
      unfold checkFallback
      split
      · next target falls => rw [if_pos (by simp [here target falls])]
      · rfl
    simp only [checkFallbacks, kept, ih later, List.append_nil]

/-- Where no name is declared twice every mode counts. -/
theorem distinct_nothing (known declared : List Mode)
    (different : ((known ++ declared).map (·.name)).Nodup) :
    distinct known declared = ([], known ++ declared) := by
  induction declared generalizing known with
  | nil => rw [distinct, List.append_nil]
  | cons mode rest ih =>
    have new : mode.name ∉ known.map (·.name) := by
      rw [List.map_append, List.map_cons] at different
      exact fun old => List.disjoint_of_nodup_append different old (.head _)
    rw [List.append_cons] at different ⊢
    rw [distinct, if_neg (mt (any_named known mode.name).mp new), ih _ different]

theorem withOneDefault_nothing (modes : List Mode) (chosen : String)
    (single : defaultNames modes = [chosen]) : withOneDefault modes = ([], modes) := by
  unfold withOneDefault
  split
  · rfl
  · next unmarked => cases unmarked.symm.trans single
  · rfl
  · next several _ marked => exact absurd (List.cons.inj (marked.symm.trans single)).2 several

/-- A settled table is the table of its modes, and nothing is wrong with it. -/
theorem ofModes_of_settled (table : List Mode) (settled : Settled table) :
    ofModes table = ([], table) := by
  obtain ⟨chosen, single⟩ := settled.oneDefault
  have captures : withCapture table = table := if_pos ((any_named table _).mpr settled.capture)
  cases table with
  | nil => cases single
  | cons first rest =>
    simp only [ofModes, distinct_nothing [] _ settled.distinct, List.nil_append,
      withOneDefault_nothing _ chosen single, captures,
      checkFallbacks_nothing _ _ settled.fallbacks]

theorem orImplied_nonempty (declared : List Mode) : orImplied declared ≠ [] := by
  cases declared <;> exact List.cons_ne_nil _ _

theorem ofModes_orImplied (declared : List Mode) : ofModes declared = ofModes (orImplied declared) := by
  cases declared with
  | nil => rfl
  | cons first rest => rfl

/-- The four repairs, one after another. -/
theorem ofModes_table (declared : List Mode) (nonempty : declared ≠ []) :
    (ofModes declared).2 =
      let modes := withCapture (withOneDefault (firstDeclared declared)).2
      (checkFallbacks (modes.map (·.name)) modes).2 := by
  cases declared with
  | nil => exact absurd rfl nonempty
  | cons first rest =>
    rw [← distinct_of_new]
    rfl

theorem firstDeclared_distinct (declared : List Mode) :
    ((firstDeclared declared).map (·.name)).Nodup :=
  distinct_of_new declared ▸ distinct_names [] declared .nil

theorem table_names (declared : List Mode) (nonempty : declared ≠ []) :
    (ofModes declared).2.map (·.name) = (declared.map (·.name)).eraseDups ++
      if Mode.capture.name ∈ declared.map (·.name) then [] else [Mode.capture.name] := by
  rw [ofModes_table declared nonempty, checkFallbacks_names, withCapture_names_eq,
    withOneDefault_names, firstDeclared_names]
  simp only [List.mem_eraseDups]

theorem table_default (declared : List Mode) (nonempty : declared ≠ []) :
    defaultNames (ofModes declared).2 = (chosenDefault? (firstDeclared declared)).toList := by
  rw [ofModes_table declared nonempty, checkFallbacks_defaults, defaultNames_withCapture,
    withOneDefault_chooses _ (firstDeclared_distinct declared)]

theorem table_fallbacks (declared : List Mode) (nonempty : declared ≠ [])
    (named : ∀ mode ∈ declared, mode.fallback ≠ some "") :
    ∀ mode ∈ (ofModes declared).2, ∀ target, mode.fallback = some target →
      target ∈ (ofModes declared).2.map (·.name) := by
  rw [ofModes_table declared nonempty, checkFallbacks_names]
  apply checkFallbacks_known
  intro mode member
  rcases mem_withCapture _ mode member with marked | rfl
  · have written : mode.fallback ∈ (withOneDefault (firstDeclared declared)).2.map (·.fallback) :=
      List.mem_map_of_mem marked
    rw [withOneDefault_keeps (·.fallback) (fun _ _ => rfl), ← distinct_of_new] at written
    obtain ⟨origin, kept, same⟩ := List.mem_map.mp written
    rw [← same]
    exact named origin ((mem_distinct [] declared origin kept).resolve_left List.not_mem_nil)
  · exact nofun

theorem chosenDefault?_some (declared : List Mode) (nonempty : declared ≠ []) :
    ∃ chosen, chosenDefault? (firstDeclared declared) = some chosen := by
  cases declared with
  | nil => exact absurd rfl nonempty
  | cons first rest =>
    rw [firstDeclared_cons, chosenDefault?_eq, List.head?_cons, Option.map_some]
    cases (defaultNames _).head? with
    | none => exact ⟨first.name, rfl⟩
    | some marked => exact ⟨marked, rfl⟩

theorem table_oneDefault (declared : List Mode) :
    ∃ chosen, defaultNames (ofModes declared).2 = [chosen] := by
  have nonempty := orImplied_nonempty declared
  obtain ⟨chosen, choice⟩ := chosenDefault?_some (orImplied declared) nonempty
  refine ⟨chosen, ?_⟩
  rw [ofModes_orImplied, table_default _ nonempty, choice]
  rfl

theorem table_settled (declared : List Mode) (nonempty : declared ≠ [])
    (named : ∀ mode ∈ declared, mode.fallback ≠ some "") : Settled (ofModes declared).2 where
  distinct := ofModes_names declared
  oneDefault := table_oneDefault declared
  capture := by
    rw [table_names declared nonempty, List.mem_append, List.mem_eraseDups]
    by_cases declares : Mode.capture.name ∈ declared.map (·.name)
    · exact .inl declares
    · rw [if_neg declares]
      exact .inr (List.mem_singleton_self _)
  fallbacks := table_fallbacks declared nonempty named

/-- The table of modes is settled: it has every declared name once, in the order of first
declarations, and a mode for capturing keys, and its default is the first of the kept modes that is
marked, or else the first of all. The table of a table is that table, without a problem. -/
theorem ofModes_settled (declared : List Mode)
    (named : ∀ mode ∈ declared, mode.fallback ≠ some "") :
    let modes := orImplied declared
    let table := (ofModes declared).2
    Settled table ∧
    table.map (·.name) = (modes.map (·.name)).eraseDups ++
      (if "capture" ∈ modes.map (·.name) then [] else ["capture"]) ∧
    defaultNames table = (chosenDefault? (firstDeclared modes)).toList ∧
    ofModes table = ([], table) := by
  intro modes table
  have nonempty : modes ≠ [] := orImplied_nonempty declared
  have named : ∀ mode ∈ modes, mode.fallback ≠ some "" := by
    cases declared with
    | nil => exact List.forall_mem_singleton.mpr nofun
    | cons first rest => exact named
  have same : table = (ofModes modes).2 := congrArg Prod.snd (ofModes_orImplied declared)
  have settled : Settled table := same ▸ table_settled modes nonempty named
  refine ⟨settled, ?_, ?_, ofModes_of_settled table settled⟩
  · rw [same]
    exact table_names modes nonempty
  · rw [same]
    exact table_default modes nonempty

/-- A mode that is declared twice, two that are marked, and a fallback to a mode that is not there. -/
def faulty : List Mode :=
  [{ Mode.named "insert" with fallback := some "visual" },
   { Mode.named "normal" with isDefault := true },
   { Mode.named "insert" with isDefault := true },
   { Mode.named "select" with isDefault := true, fallback := some "capture" }]

theorem faulty_settled :
    (∀ mode ∈ faulty, mode.fallback ≠ some "") ∧
      (ofModes faulty).2.map (·.name) = ["insert", "normal", "select", "capture"] ∧
      defaultNames (ofModes faulty).2 = ["normal"] ∧ (ofModes faulty).1.length = 3 ∧
      ofModes (ofModes faulty).2 = ([], (ofModes faulty).2) := by
  have named : ∀ mode ∈ faulty, mode.fallback ≠ some "" := by simp [faulty, Mode.named]
  obtain ⟨_, names, chosen, again⟩ := ofModes_settled faulty named
  refine ⟨named, names.trans (by decide), chosen.trans (by decide), by decide, again⟩

end ModeTable

end Keymap
