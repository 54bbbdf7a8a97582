import Keymap.Proofs.Legacy.Current

/-!
Which places of a legacy document the rules name. Every section, binding and default entry keeps its
fields in their order, each under its current name, and what becomes of a field is settled by the
field alone; whatever lies elsewhere is kept as it is (`upgrade_rebuilds`).
-/

set_option autoImplicit false

namespace Keymap

namespace Legacy

section Reach

/-- Whether a path leads to a place. -/
def leadsTo : List Slot → Path → Bool
  | [], [] => true
  | slot :: slots, step :: path => slot.holds step && leadsTo slots path
  | _, _ => false

/-- Whether a place lies further inside than a path leads. -/
def isInside : List Slot → Path → Bool
  | _ :: _, [] => true
  | slot :: slots, step :: path => slot.holds step && isInside slots path
  | [], _ => false

theorem applies_eq (rule : Rule) (path : Path) : rule.applies path = leadsTo rule.place path := by
  unfold Rule.applies
  generalize rule.place = place
  induction place generalizing path with
  | nil => cases path <;> simp [leadsTo]
  | cons slot slots ih =>
    cases path with
    | nil => simp [leadsTo]
    | cons step path => simp [leadsTo, ← ih, Bool.and_left_comm]

theorem isInside_of_leadsTo (place : List Slot) (path : Path) (step : Step) (further : Path)
    (leads : leadsTo place (path ++ step :: further) = true) : isInside place path = true := by
  induction path generalizing place with
  | nil =>
    cases place with
    | nil => cases leads
    | cons slot slots => rfl
  | cons first rest ih =>
    cases place with
    | nil => cases leads
    | cons slot slots =>
      rw [List.cons_append, leadsTo, Bool.and_eq_true] at leads
      rw [isInside, leads.1, ih slots leads.2]
      rfl

variable (table : List Rule)

theorem unruled_place (path : Path) (apart : ∀ rule ∈ table, leadsTo rule.place path = false) :
    Unruled table path := by
  have unruled : table.find? (fun rule => rule.applies path) = .none := by
    simpa [applies_eq] using apart
  unfold Unruled destination
  cases table.length with
  | zero => rfl
  | succ fuel => rw [settle, unruled]

theorem untouched_outside (path : Path)
    (outside : ∀ rule ∈ table, isInside rule.place path = false) : Untouched table path := by
  intro step further
  refine unruled_place table _ fun rule among => ?_
  cases leads : leadsTo rule.place (path ++ step :: further) with
  | false => rfl
  | true =>
    have inside := isInside_of_leadsTo rule.place path step further leads
    rw [outside rule among] at inside
    cases inside

end Reach

/-- Names of fields in legacy documents, each with the current one. -/
abbrev Renames := List (String × String)

namespace Renames

def current (renames : Renames) (name : String) : String := (renames.lookup name).getD name

/-- No field of a mapping has both its old and its current name. -/
def OneWay (renames : Renames) (fields : Fields) : Prop :=
  ∀ names ∈ renames, ¬ (names.1 ∈ fields.names ∧ names.2 ∈ fields.names)

instance (renames : Renames) (fields : Fields) : Decidable (renames.OneWay fields) :=
  inferInstanceAs (Decidable (∀ names ∈ renames, ¬ (names.1 ∈ fields.names ∧
    names.2 ∈ fields.names)))

theorem current_cases (renames : Renames) (name : String) :
    renames.current name = name ∨ (name, renames.current name) ∈ renames := by
  unfold current
  cases found : renames.lookup name with
  | none => exact .inl rfl
  | some other =>
    obtain ⟨before, after, rfl, _⟩ := List.lookup_eq_some_iff.mp found
    exact .inr (by simp)

theorem current_injective (renames : Renames) (apart : (renames.map Prod.snd).Nodup)
    (fields : Fields) (oneWay : renames.OneWay fields) (first second : String)
    (held : first ∈ fields.names) (also : second ∈ fields.names)
    (same : renames.current first = renames.current second) : first = second := by
  rcases renames.current_cases first with kept | renamed
  · rcases renames.current_cases second with still | moved
    · exact kept.symm.trans (same.trans still)
    · exact absurd ⟨also, same ▸ kept.symm ▸ held⟩ (oneWay _ moved)
  · rcases renames.current_cases second with still | moved
    · exact absurd ⟨held, same.symm ▸ still.symm ▸ also⟩ (oneWay _ renamed)
    · rw [same] at renamed
      exact (Prod.mk.inj (List.inj_on_of_nodup_map apart renamed moved rfl)).1

end Renames

def topNames : Renames := [("path", "default")]

def bindingNames : Renames :=
  [("path", "defaults"), ("resetTransient", "finalKey"), ("repeat", "computedRepeat"),
   ("if", "whenComputed")]

def defaultNames : Renames := [("when", "appendWhen")]

def bindingConversions : List (String × Conversion) :=
  [("prefixes", .prefixes), ("foreach", .placeholders), ("args", .arguments),
   ("computedArgs", .arguments)]

section Destinations

theorem current_other (renames : Renames) (name : String) (other : name ∉ renames.map Prod.fst) :
    renames.current name = name := by
  refine (renames.current_cases name).resolve_right fun renamed => other ?_
  exact List.mem_map_of_mem (f := Prod.fst) renamed

theorem lookup_none_iff {Entry : Type} (entries : List (String × Entry)) (name : String) :
    entries.lookup name = none ↔ name ∉ entries.map Prod.fst := by
  rw [List.lookup_eq_none_iff, List.mem_map]
  constructor
  · rintro apart ⟨entry, among, same⟩
    simpa [same] using apart entry among
  · intro apart entry among
    simpa using fun same => apart ⟨entry, among, same.symm⟩

theorem destination_section (name : String) :
    destination rules [.field name] = ([.field (topNames.current name)], none) := by
  by_cases path : name = "path"
  · subst path
    rfl
  · rw [current_other topNames name (by simpa [topNames] using path)]
    apply unruled_place
    simp [rules, inBinding, leadsTo, Slot.holds, Ne.symm path]

theorem destination_header (name : String) :
    destination rules [.field "header", .field name] =
      ([.field "header", .field name], if name = "version" then some .version else none) := by
  by_cases version : name = "version"
  · subst version
    rfl
  · rw [if_neg version]
    apply unruled_place
    simp [rules, inBinding, leadsTo, Slot.holds, Ne.symm version]

theorem destination_item (name : String) (index : Nat) :
    destination rules [.field name, .item index] = ([.field name, .item index], none) := by
  apply unruled_place
  simp [rules, inBinding, leadsTo, Slot.holds]

theorem destination_inBinding (index : Nat) (name : String) :
    destination rules [.field "bind", .item index, .field name] =
      ([.field "bind", .item index, .field (bindingNames.current name)],
        bindingConversions.lookup name) := by
  by_cases known : name ∈ bindingNames.map Prod.fst ++ bindingConversions.map Prod.fst
  · simp only [bindingNames, bindingConversions, List.map_cons, List.map_nil, List.cons_append,
      List.nil_append, List.mem_cons, List.not_mem_nil, or_false] at known
    rcases known with rfl | rfl | rfl | rfl | rfl | rfl | rfl | rfl <;> rfl
  · obtain ⟨kept, left⟩ := not_or.mp (mt List.mem_append.mpr known)
    rw [current_other bindingNames name kept, (lookup_none_iff bindingConversions name).mpr left]
    apply unruled_place
    simp only [bindingNames, bindingConversions, List.map_cons, List.map_nil, List.mem_cons,
      List.not_mem_nil, or_false, not_or, ← ne_eq] at kept left
    simp [rules, inBinding, leadsTo, Slot.holds, kept, left, ne_comm]

theorem destination_inDefault (index : Nat) (name : String) :
    destination rules [.field "default", .item index, .field name] =
      ([.field "default", .item index, .field (defaultNames.current name)], none) := by
  by_cases guard : name = "when"
  · subst guard
    rfl
  · rw [current_other defaultNames name (by simpa [defaultNames] using guard)]
    apply unruled_place
    simp [rules, inBinding, leadsTo, Slot.holds, Ne.symm guard]

theorem nameAfter_section : nameAfter rules [] = topNames.current := by
  funext name
  simp [nameAfter, destination_section, Step.name]

theorem nameAfter_inHeader : nameAfter rules [.field "header"] = id := by
  funext name
  simp [nameAfter, destination_header, Step.name]

theorem nameAfter_inBinding (index : Nat) :
    nameAfter rules [.field "bind", .item index] = bindingNames.current := by
  funext name
  simp [nameAfter, destination_inBinding, Step.name]

theorem nameAfter_inDefault (index : Nat) :
    nameAfter rules [.field "default", .item index] = defaultNames.current := by
  funext name
  simp [nameAfter, destination_inDefault, Step.name]

theorem untouched_section (name : String) (other : name ∉ ["header", "bind", "default"]) :
    Untouched rules [.field name] := by
  apply untouched_outside
  simp only [List.mem_cons, List.not_mem_nil, or_false, not_or] at other
  simp [rules, inBinding, isInside, Slot.holds, other, ne_comm]

theorem untouched_header (step : Step) : Untouched rules [.field "header", step] := by
  apply untouched_outside
  simp [rules, inBinding, isInside, Slot.holds]

theorem untouched_beside (top name : String) : Untouched rules [.field top, .field name] := by
  apply untouched_outside
  simp [rules, inBinding, isInside, Slot.holds]

theorem untouched_third (first second third : Step) : Untouched rules [first, second, third] := by
  apply untouched_outside
  simp [rules, inBinding, isInside]

theorem unruled_beside (top name : String) (other : top ≠ "header") :
    Unruled rules [.field top, .field name] := by
  apply unruled_place
  simp [rules, inBinding, leadsTo, Slot.holds, Ne.symm other]

theorem unruled_itemInside (first second : Step) (index : Nat) :
    Unruled rules [first, second, .item index] := by
  apply unruled_place
  simp [rules, inBinding, leadsTo, Slot.holds]

end Destinations

section Becoming

/-- Field by field and in the same order: a field has its current name, and its value becomes what
the field says. Any value that is no mapping is kept. -/
def Refielded (renames : Renames) (becomes : String → Value → Value → Prop) :
    Value → Value → Prop
  | .object old, new => ∃ fields : Fields, new = .object fields ∧
      List.Forall₂ (fun before after => after.1 = renames.current before.1 ∧
        becomes before.1 before.2 after.2) old fields
  | old, new => new = old

/-- Item by item. Any value that is no list is kept. -/
def Itemwise (becomes : Value → Value → Prop) : Value → Value → Prop
  | .list old, new => ∃ items, new = .list items ∧ List.Forall₂ becomes old items
  | old, new => new = old

def HeaderField (name : String) (old new : Value) : Prop :=
  new = if name = "version" then .text "2.0" else old

/-- The arguments of a binding are rewritten as those of its command. -/
def BindingField (command : Value) (name : String) (old new : Value) : Prop :=
  if name = "prefixes" then
    new = if old.text? = some "<all-prefixes>" then .text allPrefixes else old
  else if name = "foreach" then new = Braces.doubleIn old
  else if name = "args" ∨ name = "computedArgs" then upgradeArgs command old = .ok new
  else new = old

def commandOf : Value → Value
  | .object binding => Fields.read "command" binding
  | _ => .null

def BindingUpgraded (old new : Value) : Prop :=
  Refielded bindingNames (BindingField (commandOf old)) old new

def DefaultUpgraded (old new : Value) : Prop :=
  Refielded defaultNames (fun _ before after => after = before) old new

def SectionUpgraded (name : String) (old new : Value) : Prop :=
  if name = "header" then Refielded [] HeaderField old new
  else if name = "bind" then Itemwise BindingUpgraded old new
  else if name = "path" ∨ name = "default" then Itemwise DefaultUpgraded old new
  else new = old

def DocumentUpgraded (old new : Value) : Prop := Refielded topNames SectionUpgraded old new

/-- No mapping whose fields have new names has a field both ways. -/
structure NamedOneWay (root : Fields) : Prop where
  top : topNames.OneWay root
  bindings : ∀ items fields, ("bind", .list items) ∈ root → .object fields ∈ items →
    bindingNames.OneWay fields
  defaults : ∀ name items fields, name = "path" ∨ name = "default" →
    (name, .list items) ∈ root → .object fields ∈ items → defaultNames.OneWay fields

variable (root : Fields)

theorem kept_of_walk (path : Path) (untouched : Untouched rules path) (value result : Value)
    (once : value.namesOnce = true)
    (ended : upgradeValue rules root path none value = .ok result) : result = value :=
  Except.ok.inj (ended.symm.trans (copied rules root path untouched value once))

theorem refielded_of_walk (path : Path) (renames : Renames)
    (becomes : String → Value → Value → Prop) (value result : Value)
    (apart : (renames.map Prod.snd).Nodup)
    (named : nameAfter rules path = renames.current)
    (unruled : ∀ index, Unruled rules (path ++ [.item index]))
    (untouched : ∀ index, Untouched rules (path ++ [.item index]))
    (oneWay : ∀ fields, value = .object fields → renames.OneWay fields)
    (each : ∀ fields, value = .object fields → ∀ field ∈ fields, ∀ upgraded,
      upgradeAt rules root path (.field field.1) field.2 = .ok upgraded →
        becomes field.1 field.2 upgraded)
    (once : value.namesOnce = true)
    (ended : upgradeValue rules root path none value = .ok result) :
    Refielded renames becomes value result := by
  cases value with
  | object fields =>
    rw [upgradeValue] at ended
    obtain ⟨walked, here, ended⟩ := bind_ok _ _ _ ended
    cases ended
    have distinct : ((Fields.names fields).map (nameAfter rules path)).Nodup := by
      refine List.Nodup.map_on (fun first held second also same => ?_)
        ((Value.namesOnce_object fields).mp once).1
      rw [named] at same
      exact renames.current_injective apart fields (oneWay fields rfl) first second held also same
    obtain ⟨_, inOrder, rfl⟩ :=
      (upgradeFields_iff rules root path [] fields walked distinct).mp here
    refine ⟨walked, rfl, ?_⟩
    have among := (List.forall₂_and_left fields walked).mpr ⟨each fields rfl, inOrder⟩
    refine among.imp fun before after moved => ?_
    obtain ⟨settles, name, upgraded⟩ := moved
    exact ⟨name.trans (congrFun named before.1), settles after.2 upgraded⟩
  | list items =>
    have kept := copied_by_parts rules root path (.list items) once fun step child inside => by
      cases inside with
      | item _ index _ stands =>
        have within := (Value.namesOnce_list items).mp once _ (List.mem_of_getElem? stands)
        exact ⟨unruled index, copied rules root _ (untouched index) child within⟩
    exact Except.ok.inj (ended.symm.trans kept)
  | _ => exact (Except.ok.inj ended).symm

theorem itemwise_of_walk (path : Path) (becomes : Value → Value → Prop) (value result : Value)
    (unruled : ∀ name, Unruled rules (path ++ [.field name]))
    (untouched : ∀ name, Untouched rules (path ++ [.field name]))
    (each : ∀ items, value = .list items → ∀ index item, items[index]? = some item →
      ∀ upgraded, upgradeAt rules root path (.item index) item = .ok upgraded →
        becomes item upgraded)
    (once : value.namesOnce = true)
    (ended : upgradeValue rules root path none value = .ok result) :
    Itemwise becomes value result := by
  cases value with
  | list items =>
    rw [upgradeValue] at ended
    obtain ⟨walked, here, ended⟩ := bind_ok _ _ _ ended
    cases ended
    rw [upgradeList_iff] at here
    refine ⟨walked, rfl, ?_⟩
    rw [← List.zipIdx_map_fst 0 items, List.forall₂_map_left_iff]
    have among := (List.forall₂_and_left (items.zipIdx 0) walked).mpr ⟨fun entry given =>
      each items rfl entry.2 entry.1 (List.mem_zipIdx_iff_getElem?.mp given), here⟩
    exact among.imp fun entry upgraded moved => moved.1 upgraded moved.2
  | object fields =>
    have kept := copied_by_parts rules root path (.object fields) once fun step child inside => by
      cases inside with
      | field _ name _ given =>
        have within := ((Value.namesOnce_object fields).mp once).2 _ given
        exact ⟨unruled name, copied rules root _ (untouched name) child within⟩
    exact Except.ok.inj (ended.symm.trans kept)
  | _ => exact (Except.ok.inj ended).symm

theorem header_upgraded (value result : Value) (once : value.namesOnce = true)
    (ended : upgradeValue rules root [.field "header"] none value = .ok result) :
    Refielded [] HeaderField value result := by
  refine refielded_of_walk root [.field "header"] [] HeaderField value result List.nodup_nil
    nameAfter_inHeader (destination_item "header") (fun index => untouched_header (.item index))
    (fun _ _ _ unlisted => nomatch unlisted)
    (fun fields same field given upgraded walked => ?_) once ended
  · subst same
    rw [upgradeAt, List.singleton_append, destination_header] at walked
    unfold HeaderField
    split at walked
    · next version =>
      rw [upgradeValue_converts] at walked
      cases walked
      rw [if_pos version]
    · next other =>
      have within := ((Value.namesOnce_object fields).mp once).2 field given
      rw [if_neg other]
      exact kept_of_walk root _ (untouched_header _) field.2 upgraded within walked

theorem default_upgraded (index : Nat) (value result : Value) (once : value.namesOnce = true)
    (oneWay : ∀ fields, value = .object fields → defaultNames.OneWay fields)
    (ended : upgradeValue rules root [.field "default", .item index] none value = .ok result) :
    DefaultUpgraded value result := by
  refine refielded_of_walk root [.field "default", .item index] defaultNames _ value result
    (by decide) (nameAfter_inDefault index) (unruled_itemInside _ _)
    (fun inner => untouched_third _ _ (.item inner)) oneWay
    (fun fields same field given upgraded walked => ?_) once ended
  · subst same
    have within := ((Value.namesOnce_object fields).mp once).2 field given
    rw [upgradeAt, List.cons_append, List.singleton_append, destination_inDefault] at walked
    exact kept_of_walk root _ (untouched_third _ _ _) field.2 upgraded within walked

theorem prefixes_converted (path : Path) (value result : Value)
    (ended : Conversion.prefixes.apply root path value = .ok result) :
    result = if value.text? = some "<all-prefixes>" then .text allPrefixes else value := by
  unfold Conversion.apply at ended
  dsimp only at ended
  split at ended
  · cases ended
    rfl
  · next other =>
    cases ended
    rw [if_neg]
    intro same
    cases value with
    | text content => exact other (congrArg Value.text (Option.some.inj same))
    | _ => cases same

/-- The command of a binding, read from the top of the document. -/
theorem commandAt_binding (items : List Value) (index : Nat) (item : Value) (name : String)
    (listed : root.get? "bind" = some (.list items)) (stands : items[index]? = some item) :
    commandAt root [.field "bind", .item index, .field name] = commandOf item := by
  have found : root.read "bind" = .list items := by rw [Fields.read, listed, Option.getD_some]
  simp only [commandAt, found, stands]
  cases item <;> rfl

theorem bindingField_of_walk (items : List Value) (index : Nat) (item : Value) (name : String)
    (value upgraded : Value) (listed : root.get? "bind" = some (.list items))
    (stands : items[index]? = some item) (once : value.namesOnce = true)
    (walked : upgradeAt rules root [.field "bind", .item index] (.field name) value =
      .ok upgraded) : BindingField (commandOf item) name value upgraded := by
  rw [upgradeAt, List.cons_append, List.singleton_append, destination_inBinding] at walked
  unfold BindingField
  split
  · next prefixes =>
    have conversion : bindingConversions.lookup name = some .prefixes := by
      rw [prefixes]
      rfl
    rw [conversion, upgradeValue_converts] at walked
    exact prefixes_converted root _ value upgraded walked
  split
  · next placeholders =>
    have conversion : bindingConversions.lookup name = some .placeholders := by
      rw [placeholders]
      rfl
    rw [conversion, upgradeValue_converts] at walked
    exact (Except.ok.inj walked).symm
  split
  · next argument =>
    have conversion : bindingConversions.lookup name = some .arguments := by
      rcases argument with name | name <;> rw [name] <;> rfl
    rw [conversion, upgradeValue_converts, Conversion.apply,
      commandAt_binding root items index item _ listed stands] at walked
    exact walked
  · next prefixes placeholders argument =>
    rw [not_or] at argument
    have conversion : bindingConversions.lookup name = none := by
      rw [lookup_none_iff]
      simp [bindingConversions, prefixes, placeholders, argument]
    rw [conversion] at walked
    exact kept_of_walk root _ (untouched_third _ _ _) value upgraded once walked

theorem binding_upgraded (items : List Value) (index : Nat) (value result : Value)
    (listed : root.get? "bind" = some (.list items)) (stands : items[index]? = some value)
    (once : value.namesOnce = true)
    (oneWay : ∀ fields, value = .object fields → bindingNames.OneWay fields)
    (ended : upgradeValue rules root [.field "bind", .item index] none value = .ok result) :
    BindingUpgraded value result := by
  refine refielded_of_walk root [.field "bind", .item index] bindingNames _ value result
    (by decide) (nameAfter_inBinding index) (unruled_itemInside _ _)
    (fun inner => untouched_third _ _ (.item inner)) oneWay
    (fun fields same field given upgraded walked => ?_) once ended
  have within := ((Value.namesOnce_object fields).mp (same ▸ once)).2 field given
  exact bindingField_of_walk root items index value field.1 field.2 upgraded listed stands within
    walked

theorem section_upgraded (names : NamedOneWay root) (field : String × Value) (given : field ∈ root)
    (once : (Value.object root).namesOnce = true) (upgraded : Value)
    (walked : upgradeAt rules root [] (.field field.1) field.2 = .ok upgraded) :
    SectionUpgraded field.1 field.2 upgraded := by
  obtain ⟨name, value⟩ := field
  obtain ⟨distinct, each⟩ := (Value.namesOnce_object root).mp once
  have within := each _ given
  rw [upgradeAt, List.nil_append, destination_section] at walked
  unfold SectionUpgraded
  dsimp only at walked within ⊢
  split
  · next header =>
    rw [header] at walked
    exact header_upgraded root value upgraded within walked
  split
  · next bindings =>
    subst bindings
    have listed := Fields.get?_of_mem "bind" value root distinct given
    refine itemwise_of_walk root [.field "bind"] BindingUpgraded value upgraded
      (fun name => unruled_beside "bind" name (by decide)) (untouched_beside "bind")
      (fun items same index item stands result inside => ?_) within walked
    subst same
    rw [upgradeAt, List.singleton_append, destination_item] at inside
    have member := List.mem_of_getElem? stands
    exact binding_upgraded root items index item result listed stands
      ((Value.namesOnce_list items).mp within item member)
      (fun fields same => names.bindings items fields given (same ▸ member)) inside
  split
  · next defaults =>
    have current : topNames.current name = "default" := by
      rcases defaults with rfl | rfl <;> rfl
    rw [current] at walked
    refine itemwise_of_walk root [.field "default"] DefaultUpgraded value upgraded
      (fun name => unruled_beside "default" name (by decide)) (untouched_beside "default")
      (fun items same index item stands result inside => ?_) within walked
    subst same
    rw [upgradeAt, List.singleton_append, destination_item] at inside
    have member := List.mem_of_getElem? stands
    exact default_upgraded root index item result
      ((Value.namesOnce_list items).mp within item member)
      (fun fields same => names.defaults name items fields defaults given (same ▸ member)) inside
  · next header bindings defaults =>
    rw [not_or] at defaults
    have current := current_other topNames name (by simpa [topNames] using defaults.1)
    rw [current] at walked
    have untouched := untouched_section name (by simp [header, bindings, defaults.2])
    exact kept_of_walk root _ untouched value upgraded within walked

/-- Of a legacy document that names nothing both ways, the rules change what they name and nothing
else. -/
theorem upgrade_rebuilds (root : Fields) (current : Value)
    (once : (Value.object root).namesOnce = true) (legacy : (Value.object root).isLegacy = true)
    (names : NamedOneWay root) (yields : Yields (.object root) current) :
    DocumentUpgraded (.object root) current := by
  have walked := yields.2
  rw [upgrade, legacy] at walked
  refine refielded_of_walk root [] topNames SectionUpgraded (.object root) current (by decide)
    nameAfter_section (fun index => ?_) (fun index => ?_) (fun fields same => ?_)
    (fun fields same field given upgraded walked => ?_) once walked
  · apply unruled_place
    simp [rules, inBinding, leadsTo, Slot.holds]
  · apply untouched_outside
    simp [rules, inBinding, isInside, Slot.holds]
  · cases same
    exact names.top
  · cases same
    exact section_upgraded root names field given once upgraded walked

def layeredDefault : Fields :=
  [("id", .text "motion"), ("when", .text "focused"),
   ("default", .object [("args", .object [("if", .text "{x}")])])]

def layeredBinding : Fields :=
  [("if", .text "count"), ("key", .text "{k}"), ("path", .text "motion"),
   ("foreach", .object [("k", .list [.text "{key: [jk]}"])]),
   ("command", .text "storeNamed"), ("args", .object [("name", .text "{k}")]),
   ("prefixes", .text "<all-prefixes>")]

def layeredDocument : Fields :=
  [("define", .object [("path", .list [.object [("when", .text "{x}")]])]),
   ("path", .list [.object layeredDefault]),
   ("header", .object [("name", .text "keys"), ("version", .text "1.2")]),
   ("bind", .list [.text "path", .object layeredBinding])]

def relayeredDocument : Fields :=
  [("define", .object [("path", .list [.object [("when", .text "{x}")]])]),
   ("default", .list [.object
     [("id", .text "motion"), ("appendWhen", .text "focused"),
      ("default", .object [("args", .object [("if", .text "{x}")])])]]),
   ("header", .object [("name", .text "keys"), ("version", .text "2.0")]),
   ("bind", .list [.text "path", .object
     [("whenComputed", .text "count"), ("key", .text "{k}"), ("defaults", .text "motion"),
      ("foreach", .object [("k", .list [.text (Braces.double "{key: [jk]}")])]),
      ("command", .text "storeNamed"),
      ("args", .object
        [("description", .text ""), ("register", .text (Braces.double "{k}"))]),
      ("prefixes", .text allPrefixes)]])]

theorem layered_oneWay : NamedOneWay layeredDocument where
  top := by decide
  bindings := by
    intro items fields listed held
    obtain rfl : items = [.text "path", .object layeredBinding] := by
      simpa [layeredDocument] using listed
    obtain rfl : fields = layeredBinding := by simpa using held
    decide
  defaults := by
    rintro name items fields (rfl | rfl) listed held
    · obtain rfl : items = [.object layeredDefault] := by simpa [layeredDocument] using listed
      obtain rfl : fields = layeredDefault := by simpa using held
      decide
    · simp [layeredDocument] at listed

theorem layered_rebuilt : NamedOneWay layeredDocument ∧
    Yields (.object layeredDocument) (.object relayeredDocument) ∧
      DocumentUpgraded (.object layeredDocument) (.object relayeredDocument) := by
  have yields : Yields (.object layeredDocument) (.object relayeredDocument) :=
    ⟨by decide +kernel, rfl⟩
  exact ⟨layered_oneWay, yields, upgrade_rebuilds layeredDocument _ (by decide +kernel)
    (by decide +kernel) layered_oneWay yields⟩

end Becoming

end Legacy

end Keymap
