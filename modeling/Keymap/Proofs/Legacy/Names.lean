import Keymap.Proofs.Legacy.Layout

/-!
Where old names are left. Of the mappings that hold the fields of a binding the walk renames those
in the bindings themselves, and keeps what a default entry holds for the bindings that name it
(`old_names_gone_iff`).
-/

set_option autoImplicit false

namespace Keymap

namespace Legacy

section Contents

variable (table : List Rule) (root : Fields)

theorem upgradeList_at (path : Path) (items result : List Value)
    (ended : upgradeList table root path 0 items = .ok result) (index : Nat) :
    match items[index]? with
    | some item => ∃ upgraded, upgradeAt table root path (.item index) item = .ok upgraded ∧
        result[index]? = some upgraded
    | none => result[index]? = none := by
  rw [upgradeList_iff, List.forall₂_iff_get] at ended
  obtain ⟨long, each⟩ := ended
  rw [List.length_zipIdx] at long
  cases stands : items[index]? with
  | none =>
    rw [List.getElem?_eq_none_iff] at stands ⊢
    rwa [← long]
  | some item =>
    obtain ⟨within, rfl⟩ := List.getElem?_eq_some_iff.mp stands
    have here := each index (by rwa [List.length_zipIdx]) (long ▸ within)
    rw [List.get_eq_getElem, List.getElem_zipIdx, Nat.zero_add] at here
    exact ⟨_, here, List.getElem?_eq_getElem (long ▸ within)⟩

/-- A mapping stays one, with what becomes of its fields. -/
theorem object?_walked (path : Path) (value result : Value)
    (ended : upgradeValue table root path none value = .ok result) :
    match value.object? with
    | some fields => ∃ after, upgradeFields table root path [] fields = .ok after ∧
        result.object? = some after
    | none => result.object? = none := by
  cases value with
  | object fields =>
    rw [upgradeValue] at ended
    obtain ⟨after, here, ended⟩ := bind_ok _ _ _ ended
    cases ended
    exact ⟨after, here, rfl⟩
  | list items =>
    rw [upgradeValue] at ended
    obtain ⟨_, _, ended⟩ := bind_ok _ _ _ ended
    cases ended
    rfl
  | _ =>
    cases ended
    rfl

theorem list?_walked (path : Path) (value result : Value)
    (ended : upgradeValue table root path none value = .ok result) :
    match value.list? with
    | some items => ∃ after, upgradeList table root path 0 items = .ok after ∧
        result.list? = some after
    | none => result.list? = none := by
  cases value with
  | list items =>
    rw [upgradeValue] at ended
    obtain ⟨after, here, ended⟩ := bind_ok _ _ _ ended
    cases ended
    exact ⟨after, here, rfl⟩
  | object fields =>
    rw [upgradeValue] at ended
    obtain ⟨_, _, ended⟩ := bind_ok _ _ _ ended
    cases ended
    rfl
  | _ =>
    cases ended
    rfl

/-- An item of a list that is a mapping. -/
def entryAt (listed : Option Value) (index : Nat) : Option Fields :=
  ((listed.bind Value.list?).bind fun items => items[index]?).bind Value.object?

theorem entryAt_eq_some_iff (listed : Option Value) (index : Nat) (entry : Fields) :
    entryAt listed index = some entry ↔
      ∃ items, listed = some (.list items) ∧ items[index]? = some (.object entry) := by
  have lists (value : Value) (items : List Value) : value.list? = some items ↔
      value = .list items := by
    cases value <;> simp [Value.list?]
  have mappings (value : Value) : value.object? = some entry ↔ value = .object entry := by
    cases value <;> simp [Value.object?]
  simp [entryAt, Option.bind_eq_some_iff, lists, mappings]

/-- A mapping among the items of a list stays one. -/
theorem entryAt_walked (path : Path) (value result : Value) (index : Nat)
    (unruled : Unruled table (path ++ [.item index]))
    (ended : upgradeValue table root path none value = .ok result) :
    match entryAt (some value) index with
    | some entry => ∃ fields,
        upgradeFields table root (path ++ [.item index]) [] entry = .ok fields ∧
          entryAt (some result) index = some fields
    | none => entryAt (some result) index = none := by
  have lists := list?_walked table root path value result ended
  cases listed : value.list? with
  | none =>
    rw [listed] at lists
    simp [entryAt, listed, lists]
  | some items =>
    rw [listed] at lists
    obtain ⟨walked, here, same⟩ := lists
    have each := upgradeList_at table root path items walked here index
    cases stands : items[index]? with
    | none =>
      rw [stands] at each
      simp [entryAt, listed, same, stands, each]
    | some item =>
      rw [stands] at each
      obtain ⟨upgraded, inside, placed⟩ := each
      rw [upgradeAt_unruled table root path _ unruled] at inside
      have mappings := object?_walked table root _ item upgraded inside
      simpa [entryAt, listed, same, stands, placed] using mappings

end Contents

namespace Renames

/-- No name is renamed twice. -/
theorem current_settled (renames : Renames)
    (settled : ∀ names ∈ renames, names.2 ∉ renames.map Prod.fst) (name : String) :
    renames.current name ∉ renames.map Prod.fst := by
  unfold current
  cases found : renames.lookup name with
  | none => exact (lookup_none_iff renames name).mp found
  | some new =>
    obtain ⟨before, after, same, _⟩ := List.lookup_eq_some_iff.mp found
    exact settled (name, new) (by simp [same])

theorem current_never (renames : Renames) (name asked : String)
    (never : asked ∉ renames.map Prod.snd) (same : renames.current name = asked) :
    name = asked := by
  rcases renames.current_cases name with kept | renamed
  · exact kept.symm.trans same
  · exact absurd (List.mem_map_of_mem (f := Prod.snd) (same ▸ renamed)) never

/-- What has neither an old nor a new name is found as before. -/
theorem latest_other (renames : Renames) (asked : String) (fields : Fields)
    (distinct : fields.names.Nodup) (old : asked ∉ renames.map Prod.fst)
    (new : asked ∉ renames.map Prod.snd) :
    latest renames.current asked fields =
      (fields.get? asked).map fun value => (asked, value) :=
  latest_kept renames.current asked fields distinct (current_other renames asked old)
    fun name _ same => renames.current_never name asked new same

end Renames

section Names

variable (root : Fields)

theorem upgradeFields_renamed (path : Path) (renames : Renames) (fields result : Fields)
    (settled : ∀ names ∈ renames, names.2 ∉ renames.map Prod.fst)
    (named : nameAfter rules path = renames.current)
    (ended : upgradeFields rules root path [] fields = .ok result) :
    ∀ name ∈ result.names, name ∉ renames.map Prod.fst := by
  intro name held
  have placed := get?_upgradeFields rules root path [] fields result name ended
  rw [named] at placed
  cases found : latest renames.current name fields with
  | none =>
    rw [found] at placed
    exact absurd held ((Fields.get?_eq_none_iff name result).mp placed)
  | some field =>
    rw [← (latest_named renames.current name fields field found).2]
    exact renames.current_settled settled field.1

/-- A mapping has no field under the old name of a field of bindings. -/
def NewlyNamed (fields : Fields) : Prop := ∀ name ∈ fields.names, name ∉ bindingNames.map Prod.fst

instance (fields : Fields) : Decidable (NewlyNamed fields) :=
  inferInstanceAs (Decidable (∀ name ∈ fields.names, name ∉ bindingNames.map Prod.fst))

def bindingAt (index : Nat) : Option Fields := entryAt (root.get? "bind") index

/-- The default entries of a document, under either name; the later counts. -/
def defaultsOf : Option Value := (latest topNames.current "default" root).map Prod.snd

/-- What a default entry holds for the bindings that name it. -/
def partialAt (index : Nat) : Option Fields :=
  ((entryAt (defaultsOf root) index).bind (Fields.get? "default")).bind Value.object?

theorem entryAt_once (value : Value) (index : Nat) (entry : Fields)
    (once : value.namesOnce = true) (found : entryAt (some value) index = some entry) :
    (Value.object entry).namesOnce = true := by
  obtain ⟨items, same, stands⟩ := (entryAt_eq_some_iff _ index entry).mp found
  cases same
  exact (Value.namesOnce_list items).mp once _ (List.mem_of_getElem? stands)

/-- A default entry keeps what stands under a name that the rules do not know. -/
theorem get?_inDefault (index : Nat) (entry inner : Fields) (asked : String)
    (once : (Value.object entry).namesOnce = true) (old : asked ∉ defaultNames.map Prod.fst)
    (new : asked ∉ defaultNames.map Prod.snd)
    (walked : upgradeFields rules root [.field "default", .item index] [] entry = .ok inner) :
    inner.get? asked = entry.get? asked := by
  obtain ⟨distinct, each⟩ := (Value.namesOnce_object entry).mp once
  have placed := get?_upgradeFields rules root _ [] entry inner asked walked
  rw [nameAfter_inDefault, Renames.latest_other defaultNames asked entry distinct old new] at placed
  cases found : entry.get? asked with
  | none =>
    rw [found] at placed
    exact placed
  | some value =>
    rw [found] at placed
    obtain ⟨upgraded, here, set⟩ := placed
    rw [upgradeAt, List.cons_append, List.singleton_append, destination_inDefault] at here
    have within := each _ (Fields.mem_of_get? asked value entry found)
    rw [set, kept_of_walk root _ (untouched_third _ _ _) value upgraded within here]

variable (once : (Value.object root).namesOnce = true) (fields : Fields)
  (walked : upgradeFields rules root [] [] root = .ok fields)

include once walked

/-- Every binding becomes what the walk makes of its fields. -/
theorem bindingAt_walked (index : Nat) :
    match bindingAt root index with
    | some binding => ∃ upgraded,
        upgradeFields rules root [.field "bind", .item index] [] binding = .ok upgraded ∧
          bindingAt fields index = some upgraded
    | none => bindingAt fields index = none := by
  have placed := get?_upgradeFields rules root [] [] root fields "bind" walked
  rw [nameAfter_section, Renames.latest_other topNames "bind" root
    ((Value.namesOnce_object root).mp once).1 (by decide) (by decide)] at placed
  unfold bindingAt
  cases listed : root.get? "bind" with
  | none =>
    rw [listed] at placed
    change fields.get? "bind" = none at placed
    rw [placed]
    rfl
  | some value =>
    rw [listed] at placed
    obtain ⟨upgraded, here, set⟩ := placed
    rw [upgradeAt, List.nil_append, destination_section] at here
    rw [set]
    exact entryAt_walked rules root [.field "bind"] value upgraded index
      (destination_item "bind" index) here

theorem binding_newlyNamed (index : Nat) (upgraded : Fields)
    (found : bindingAt fields index = some upgraded) : NewlyNamed upgraded := by
  have became := bindingAt_walked root once fields walked index
  cases given : bindingAt root index with
  | none =>
    rw [given] at became
    cases became.symm.trans found
  | some binding =>
    rw [given] at became
    obtain ⟨_, within, same⟩ := became
    cases same.symm.trans found
    exact upgradeFields_renamed root _ bindingNames binding upgraded (by decide)
      (nameAfter_inBinding index) within

theorem defaultsOf_walked : defaultsOf fields = fields.get? "default" := by
  have renamed := upgradeFields_renamed root [] topNames root fields (by decide)
    nameAfter_section walked
  have same (name : String) (held : name ∈ fields.names) : topNames.current name = name :=
    current_other topNames name (renamed name held)
  have distinct := walked_once rules root [] root fields once walked
  rw [defaultsOf, latest_kept topNames.current "default" fields
    ((Value.namesOnce_object fields).mp distinct).1 rfl
    fun name held named => (same name held).symm.trans named]
  cases fields.get? "default" <;> rfl

/-- What default entries hold for bindings is kept. -/
theorem partialAt_walked (index : Nat) : partialAt fields index = partialAt root index := by
  have placed := get?_upgradeFields rules root [] [] root fields "default" walked
  rw [nameAfter_section] at placed
  unfold partialAt
  rw [defaultsOf_walked root once fields walked]
  unfold defaultsOf
  cases listed : latest topNames.current "default" root with
  | none =>
    rw [listed] at placed
    change fields.get? "default" = none at placed
    rw [placed]
    rfl
  | some field =>
    obtain ⟨name, value⟩ := field
    obtain ⟨given, named⟩ := latest_named topNames.current "default" root _ listed
    have within := ((Value.namesOnce_object root).mp once).2 _ given
    rw [listed] at placed
    obtain ⟨upgraded, here, set⟩ := placed
    rw [upgradeAt, List.nil_append, destination_section, named] at here
    rw [set, Option.map_some]
    have became := entryAt_walked rules root [.field "default"] value upgraded index
      (destination_item "default" index) here
    cases stands : entryAt (some value) index with
    | none =>
      rw [stands] at became
      rw [became]
    | some entry =>
      rw [stands] at became
      obtain ⟨inner, moved, found⟩ := became
      have kept := get?_inDefault root index entry inner "default"
        (entryAt_once value index entry within stands) (by decide) (by decide) moved
      rw [found, Option.bind_some, Option.bind_some, kept]

end Names

theorem fields_of_yields (root : Fields) (current : Value)
    (legacy : (Value.object root).isLegacy = true) (yields : Yields (.object root) current) :
    ∃ fields, current = .object fields ∧ upgradeFields rules root [] [] root = .ok fields := by
  have ended := yields.2
  rw [upgrade, legacy, if_pos rfl, upgradeValue] at ended
  obtain ⟨fields, walked, ended⟩ := bind_ok _ _ _ ended
  exact ⟨fields, (Except.ok.inj ended).symm, walked⟩

/-- After the upgrade no binding has a field under an old name, and what default entries hold for
bindings is what they held. So old names are gone exactly if no default entry had one. -/
theorem old_names_gone_iff (root : Fields) (current : Value)
    (once : (Value.object root).namesOnce = true) (legacy : (Value.object root).isLegacy = true)
    (yields : Yields (.object root) current) :
    ∃ fields, current = .object fields ∧
      (∀ index, (bindingAt fields index).isSome = (bindingAt root index).isSome) ∧
      (∀ index, partialAt fields index = partialAt root index) ∧
      (∀ index binding, bindingAt fields index = some binding → NewlyNamed binding) ∧
      ((∀ index mapping, bindingAt fields index = some mapping ∨
          partialAt fields index = some mapping → NewlyNamed mapping) ↔
        ∀ index shared, partialAt root index = some shared → NewlyNamed shared) := by
  obtain ⟨fields, rfl, walked⟩ := fields_of_yields root current legacy yields
  have kept := partialAt_walked root once fields walked
  have renamed := binding_newlyNamed root once fields walked
  refine ⟨fields, rfl, fun index => ?_, kept, renamed, ?_, ?_⟩
  · have became := bindingAt_walked root once fields walked index
    cases given : bindingAt root index with
    | none =>
      rw [given] at became
      rw [became]
    | some binding =>
      rw [given] at became
      obtain ⟨_, _, found⟩ := became
      rw [found]
      rfl
  · intro gone index shared held
    exact gone index shared (.inr ((kept index).trans held))
  · rintro gone index mapping (binding | shared)
    · exact renamed index mapping binding
    · exact gone index mapping ((kept index).symm.trans shared)

def plainDocument : Fields :=
  [("header", .object [("version", .text "1.0")]),
   ("path", .list [.object [("id", .text "motion"), ("default", .object [("if", .text "count")])]]),
   ("default", .list [.object [("id", .text "motion"), ("default", .object [("mode", .null)])]]),
   ("bind", .list [.object [("key", .text "j"), ("path", .text "motion"), ("repeat", .text "2")]])]

def plainUpgraded : Fields :=
  [("header", .object [("version", .text "2.0")]),
   ("default", .list [.object [("id", .text "motion"), ("default", .object [("mode", .null)])]]),
   ("bind", .list [.object
     [("key", .text "j"), ("defaults", .text "motion"), ("computedRepeat", .text "2")]])]

/-- The default entries that do not count may have old names. -/
theorem plain_renamed : Yields (.object plainDocument) (.object plainUpgraded) ∧
    ∀ index mapping, bindingAt plainUpgraded index = some mapping ∨
      partialAt plainUpgraded index = some mapping → NewlyNamed mapping := by
  have yields : Yields (.object plainDocument) (.object plainUpgraded) :=
    ⟨by decide +kernel, rfl⟩
  obtain ⟨fields, same, -, -, -, gone⟩ := old_names_gone_iff plainDocument _ (by decide +kernel)
    (by decide +kernel) yields
  cases same
  refine ⟨yields, gone.mpr fun index shared held => ?_⟩
  cases index with
  | zero =>
    cases held
    decide
  | succ later => cases held

def sharingDocument : Fields :=
  [("header", .object [("version", .text "1.0")]),
   ("path", .list [.object
     [("id", .text "motion"), ("default", .object [("resetTransient", .bool false)])]]),
   ("bind", .list [.object
     [("key", .text "j"), ("path", .text "motion"), ("command", .text "cursorMove")]])]

def sharingUpgraded : Fields :=
  [("header", .object [("version", .text "2.0")]),
   ("default", .list [.object
     [("id", .text "motion"), ("default", .object [("resetTransient", .bool false)])]]),
   ("bind", .list [.object
     [("key", .text "j"), ("defaults", .text "motion"), ("command", .text "cursorMove")]])]

/-- A field that a default entry holds for bindings keeps its old name. -/
theorem old_names_left : ¬ ∀ (root : Fields) (current : Value),
    (Value.object root).namesOnce = true → (Value.object root).isLegacy = true →
    Yields (.object root) current → ∃ fields, current = .object fields ∧
      ∀ index mapping, bindingAt fields index = some mapping ∨
        partialAt fields index = some mapping → NewlyNamed mapping := by
  intro always
  have yields : Yields (.object sharingDocument) (.object sharingUpgraded) :=
    ⟨by decide +kernel, rfl⟩
  obtain ⟨fields, same, gone⟩ := always sharingDocument _ (by decide +kernel) (by decide +kernel)
    yields
  cases same
  exact absurd (gone 0 [("resetTransient", .bool false)] (.inr rfl)) (by decide)

end Legacy

end Keymap
