import Keymap.Proofs.Legacy.Upgrade
import Keymap.Proofs.Value.Fields

/-!
The walk through a document that names no field twice. Where no rule reaches it copies what it finds
(`copied`), fields that get different names stay in their order (`upgradeFields_iff`), of those that
get one name the last counts (`get?_upgradeFields`), and no mapping is left that names a field twice
(`upgradeValue_once`).
-/

set_option autoImplicit false

namespace Keymap

namespace Legacy

theorem upgradeValue_leaf (table : List Rule) (root : Fields) (path : Path) (value : Value)
    (atom : value.isLeaf = true) : upgradeValue table root path none value = .ok value := by
  cases value <;> first | rfl | cases atom

section Names

variable (table : List Rule)

/-- The name under which a field of a mapping ends up. -/
def nameAfter (path : Path) (name : String) : String :=
  ((destination table (path ++ [.field name])).1.getLast?.map Step.name).getD name

theorem nameAfter_cases (path : Path) (name : String) :
    nameAfter table path name = name ∨
      ∃ rule ∈ table, rule.action = .rename (nameAfter table path name) := by
  rcases settle_renames table table.length (path ++ [.field name]) (by simp) with
    same | ⟨rule, among, new, renames, same⟩
  · rw [nameAfter, destination, same, List.getLast?_concat]
    exact .inl rfl
  · rw [nameAfter, destination, same, List.getLast?_concat]
    exact .inr ⟨rule, among, renames⟩

theorem name_kept (path : Path) (name new : String) (same : nameAfter table path name = new)
    (never : ∀ rule ∈ table, rule.action ≠ .rename new) : name = new := by
  rcases nameAfter_cases table path name with kept | ⟨rule, among, renames⟩
  · exact kept.symm.trans same
  · exact absurd (same ▸ renames) (never rule among)

end Names

theorem upgradeFields_cons (table : List Rule) (root : Fields) (path : Path) (before rest : Fields)
    (name : String) (value : Value) :
    upgradeFields table root path before ((name, value) :: rest) =
      upgradeAt table root path (.field name) value >>= fun upgraded =>
        upgradeFields table root path (before.insert (nameAfter table path name) upgraded) rest :=
  rfl

theorem upgradeList_cons (table : List Rule) (root : Fields) (path : Path) (index : Nat)
    (item : Value) (rest : List Value) :
    upgradeList table root path index (item :: rest) =
      upgradeAt table root path (.item index) item >>= fun upgraded =>
        upgradeList table root path (index + 1) rest >>= fun others =>
          pure (upgraded :: others) :=
  rfl

section Order

variable (table : List Rule) (root : Fields)

/-- A field beside what it becomes: its new name, and the value one step further down. -/
def FieldWalked (path : Path) (old new : String × Value) : Prop :=
  new.1 = nameAfter table path old.1 ∧ upgradeAt table root path (.field old.1) old.2 = .ok new.2

/-- Fields that get different names stay in their order. -/
theorem upgradeFields_iff (path : Path) (before fields result : Fields)
    (distinct : (before.names ++ fields.names.map (nameAfter table path)).Nodup) :
    upgradeFields table root path before fields = .ok result ↔
      ∃ after, List.Forall₂ (FieldWalked table root path) fields after ∧
        result = before ++ after := by
  induction fields generalizing before with
  | nil =>
    rw [upgradeFields, Except.ok.injEq]
    constructor
    · rintro rfl
      exact ⟨[], .nil, (List.append_nil before).symm⟩
    · rintro ⟨_, walked, rfl⟩
      cases walked
      rw [List.append_nil]
  | cons field rest ih =>
    obtain ⟨name, value⟩ := field
    have new : nameAfter table path name ∉ before.names := by
      intro early
      exact (List.nodup_append.mp distinct).2.2 _ early _ List.mem_cons_self rfl
    have moved (upgraded : Value) :
        ((before ++ [(nameAfter table path name, upgraded)]).names ++
          (Fields.names rest).map (nameAfter table path)).Nodup := by
      simpa [Fields.names] using distinct
    rw [upgradeFields_cons]
    constructor
    · intro ended
      obtain ⟨upgraded, here, ended⟩ := bind_ok _ _ _ ended
      rw [Fields.insert_of_new _ _ before new] at ended
      obtain ⟨after, others, rfl⟩ := (ih _ (moved upgraded)).mp ended
      exact ⟨(nameAfter table path name, upgraded) :: after, .cons ⟨rfl, here⟩ others, by simp⟩
    · rintro ⟨after, walked, rfl⟩
      cases walked with
      | @cons _ placed _ others first later =>
        obtain ⟨known, upgraded⟩ := placed
        obtain ⟨rfl, here⟩ := first
        rw [here]
        change upgradeFields table root path (before.insert _ upgraded) rest = _
        rw [Fields.insert_of_new _ _ before new]
        exact (ih _ (moved upgraded)).mpr ⟨others, later, by simp⟩

theorem upgradeList_iff (path : Path) (index : Nat) (items result : List Value) :
    upgradeList table root path index items = .ok result ↔
      List.Forall₂ (fun old new => upgradeAt table root path (.item old.2) old.1 = .ok new)
        (items.zipIdx index) result := by
  induction items generalizing index result with
  | nil =>
    rw [upgradeList, Except.ok.injEq, List.zipIdx_nil, List.forall₂_nil_left_iff]
    exact eq_comm
  | cons item rest ih =>
    rw [upgradeList_cons, List.zipIdx_cons]
    constructor
    · intro ended
      obtain ⟨upgraded, here, ended⟩ := bind_ok _ _ _ ended
      obtain ⟨others, later, ended⟩ := bind_ok _ _ _ ended
      cases ended
      exact .cons here ((ih _ others).mp later)
    · intro walked
      cases walked with
      | @cons _ upgraded _ others first later =>
        rw [first]
        change (upgradeList table root path (index + 1) rest >>= fun others => _) = _
        rw [(ih _ others).mpr later]
        rfl

/-- Of the fields that get one name, the last. -/
def latest (renamed : String → String) (asked : String) (fields : Fields) :
    Option (String × Value) :=
  fields.reverse.find? fun field => renamed field.1 = asked

theorem latest_cons (renamed : String → String) (asked : String) (field : String × Value)
    (rest : Fields) : latest renamed asked (field :: rest) =
      (latest renamed asked rest).or (if renamed field.1 = asked then some field else none) := by
  by_cases same : renamed field.1 = asked <;> simp [latest, same]

theorem latest_named (renamed : String → String) (asked : String) (fields : Fields)
    (field : String × Value) (found : latest renamed asked fields = some field) :
    field ∈ fields ∧ renamed field.1 = asked :=
  ⟨List.mem_reverse.mp (List.mem_of_find?_eq_some found), by simpa using List.find?_some found⟩

/-- What keeps its name, and is the only field to get it, is found under it. -/
theorem latest_kept (renamed : String → String) (asked : String) (fields : Fields)
    (distinct : fields.names.Nodup) (kept : renamed asked = asked)
    (alone : ∀ name ∈ fields.names, renamed name = asked → name = asked) :
    latest renamed asked fields = (fields.get? asked).map fun value => (asked, value) := by
  cases found : latest renamed asked fields with
  | none =>
    have missing : fields.get? asked = none := by
      rw [Fields.get?_eq_none_iff, Fields.mem_names_iff]
      rintro ⟨value, given⟩
      have missed := List.find?_eq_none.mp found (asked, value) (List.mem_reverse.mpr given)
      exact missed (decide_eq_true kept)
    rw [missing, Option.map_none]
  | some field =>
    obtain ⟨name, value⟩ := field
    obtain ⟨given, same⟩ := latest_named renamed asked fields _ found
    obtain rfl := alone name (List.mem_map_of_mem given) same
    rw [Fields.get?_of_mem name value fields distinct given, Option.map_some]

/-- The last field that gets a name decides what stands under it. -/
theorem get?_upgradeFields (path : Path) (before fields result : Fields) (asked : String)
    (ended : upgradeFields table root path before fields = .ok result) :
    match latest (nameAfter table path) asked fields with
    | some field => ∃ upgraded, upgradeAt table root path (.field field.1) field.2 = .ok upgraded ∧
        result.get? asked = some upgraded
    | none => result.get? asked = before.get? asked := by
  induction fields generalizing before with
  | nil =>
    cases ended
    rfl
  | cons field rest ih =>
    obtain ⟨name, value⟩ := field
    rw [upgradeFields_cons] at ended
    obtain ⟨upgraded, here, ended⟩ := bind_ok _ _ _ ended
    have later := ih _ ended
    rw [latest_cons]
    cases found : latest (nameAfter table path) asked rest with
    | some field =>
      rw [found] at later
      exact later
    | none =>
      rw [found] at later
      dsimp only at later
      rw [later, Fields.get?_insert]
      by_cases same : nameAfter table path name = asked
      · simpa [same] using here
      · simp [same, Ne.symm same]

/-- Whether neither a new name nor a conversion waits at a place. -/
def Unruled (path : Path) : Prop := destination table path = (path, none)

theorem upgradeAt_unruled (path : Path) (step : Step) (unruled : Unruled table (path ++ [step]))
    (value : Value) :
    upgradeAt table root path step value = upgradeValue table root (path ++ [step]) none value := by
  rw [upgradeAt, unruled]

theorem nameAfter_unruled (path : Path) (name : String)
    (unruled : Unruled table (path ++ [.field name])) : nameAfter table path name = name := by
  rw [nameAfter, unruled, List.getLast?_concat]
  rfl

/-- What is copied part by part is copied. -/
theorem copied_by_parts (path : Path) (value : Value) (once : value.namesOnce = true)
    (each : ∀ step child, Child value step child → Unruled table (path ++ [step]) ∧
      upgradeValue table root (path ++ [step]) none child = .ok child) :
    upgradeValue table root path none value = .ok value := by
  have same (step : Step) (child : Value) (inside : Child value step child) :
      upgradeAt table root path step child = .ok child := by
    obtain ⟨unruled, copied⟩ := each step child inside
    rw [upgradeAt_unruled table root path step unruled, copied]
  cases value with
  | list items =>
    have kept : upgradeList table root path 0 items = .ok items := by
      rw [upgradeList_iff]
      conv => arg 3; rw [← List.zipIdx_map_fst 0 items]
      rw [List.forall₂_map_right_iff, List.forall₂_same]
      rintro ⟨item, index⟩ member
      exact same _ item (.item items index item (List.mem_zipIdx_iff_getElem?.mp member))
    rw [upgradeValue, kept]
    rfl
  | object fields =>
    have unruled (field : String × Value) (given : field ∈ fields) :
        nameAfter table path field.1 = field.1 :=
      nameAfter_unruled table path field.1 (each _ _ (.field fields field.1 field.2 given)).1
    have names : (Fields.names fields).map (nameAfter table path) = Fields.names fields := by
      rw [Fields.names, List.map_map]
      exact List.map_congr_left unruled
    have kept : upgradeFields table root path [] fields = .ok fields := by
      have distinct := ((Value.namesOnce_object fields).mp once).1
      rw [upgradeFields_iff table root path [] fields fields (by rwa [names])]
      refine ⟨fields, List.forall₂_same.mpr fun field given => ?_, rfl⟩
      exact ⟨(unruled field given).symm, same _ _ (.field fields field.1 field.2 given)⟩
    rw [upgradeValue, kept]
    rfl
  | _ => rfl

/-- Whether no rule is about a place further inside than a path leads. -/
def Untouched (path : Path) : Prop :=
  ∀ step further, Unruled table (path ++ step :: further)

theorem untouched_further (path : Path) (step : Step) (untouched : Untouched table path) :
    Untouched table (path ++ [step]) := by
  intro next further
  rw [List.append_assoc]
  exact untouched step (next :: further)

theorem child_once (value child : Value) (step : Step) (inside : Child value step child)
    (once : value.namesOnce = true) : child.namesOnce = true := by
  cases inside with
  | field fields name _ given => exact ((Value.namesOnce_object fields).mp once).2 _ given
  | item items index _ stands =>
    exact (Value.namesOnce_list items).mp once _ (List.mem_of_getElem? stands)

theorem copied (path : Path) (untouched : Untouched table path) (value : Value)
    (once : value.namesOnce = true) : upgradeValue table root path none value = .ok value := by
  refine copied_by_parts table root path value once fun step child inside => ?_
  have smaller := child_smaller value child step inside
  exact ⟨untouched step [], copied _ (untouched_further table path step untouched) child
    (child_once value child step inside once)⟩
termination_by sizeOf value

/-- Without rules nothing is touched. -/
theorem untouched_without_rules (path : Path) : Untouched [] path := fun _ _ => rfl

end Order

section Once

theorem doubleInItems_eq (items : List Value) :
    Braces.doubleInItems items = items.map Braces.doubleIn := by
  induction items with
  | nil => rfl
  | cons item rest ih => rw [Braces.doubleInItems, ih, List.map_cons]

theorem doubleInFields_eq (fields : Fields) : Braces.doubleInFields fields =
    fields.map fun field => (field.1, Braces.doubleIn field.2) := by
  induction fields with
  | nil => rfl
  | cons field rest ih => rw [Braces.doubleInFields, ih, List.map_cons]

theorem doubleIn_once (value : Value) (once : value.namesOnce = true) :
    (Braces.doubleIn value).namesOnce = true := by
  induction value using Value.byContents with
  | leaf value atom => cases value <;> first | rfl | cases atom
  | list items ih =>
    have each := (Value.namesOnce_list items).mp once
    rw [Braces.doubleIn, doubleInItems_eq, Value.namesOnce_list, List.forall_mem_map]
    exact fun item member => ih item member (each item member)
  | object fields ih =>
    obtain ⟨distinct, each⟩ := (Value.namesOnce_object fields).mp once
    rw [Braces.doubleIn, doubleInFields_eq, Value.namesOnce_object, List.forall_mem_map]
    refine ⟨?_, fun field member => ih field member (each field member)⟩
    simpa [Fields.names, Function.comp_def] using distinct

/-- Whatever in a command is upgraded as its arguments names no field twice. -/
def ArgsOnce (command : Value) (fields : Fields) : Prop :=
  ∀ field ∈ fields, ∀ upgraded,
    upgradeArgs command field.2 = .ok upgraded → upgraded.namesOnce = true

theorem upgradeCommand_once (command : Value) (fields result : Fields)
    (each : ∀ field ∈ fields, field.2.namesOnce = true)
    (arguments : ArgsOnce command fields)
    (ended : upgradeCommand command fields = .ok result) :
    result.names.Sublist fields.names ∧ ∀ field ∈ result, field.2.namesOnce = true := by
  induction fields generalizing result with
  | nil =>
    cases ended
    exact ⟨.slnil, by simp⟩
  | cons field rest ih =>
    obtain ⟨name, value⟩ := field
    rw [upgradeCommand] at ended
    have found : ∃ upgraded : Value, upgraded.namesOnce = true ∧
        (upgradeCommand command rest >>= fun after =>
          pure (if upgraded.isNull then after else (name, upgraded) :: after)) = .ok result := by
      split at ended
      · obtain ⟨upgraded, here, ended⟩ := bind_ok _ _ _ ended
        exact ⟨upgraded, arguments (name, value) List.mem_cons_self upgraded here, ended⟩
      · exact ⟨value, each (name, value) List.mem_cons_self, ended⟩
    obtain ⟨upgraded, once, ended⟩ := found
    obtain ⟨after, later, ended⟩ := bind_ok _ _ _ ended
    obtain ⟨fewer, others⟩ := ih after (fun field member => each field (.tail _ member))
      (fun field member => arguments field (.tail _ member)) later
    cases ended
    split
    · exact ⟨.cons _ fewer, others⟩
    · exact ⟨.cons_cons _ fewer, List.forall_mem_cons.mpr ⟨once, others⟩⟩

theorem upgradeItems_once (items result : List Value)
    (each : ∀ item ∈ items, item.namesOnce = true)
    (commands : ∀ inner : Fields, .object inner ∈ items → ArgsOnce (inner.read "command") inner)
    (ended : upgradeItems items = .ok result) : ∀ item ∈ result, item.namesOnce = true := by
  induction items generalizing result with
  | nil =>
    cases ended
    simp
  | cons item rest ih =>
    have after := fun others => ih others (fun item member => each item (.tail _ member))
      (fun inner member => commands inner (.tail _ member))
    have once := each item List.mem_cons_self
    cases item with
    | object fields =>
      rw [upgradeItems] at ended
      obtain ⟨command, here, ended⟩ := bind_ok _ _ _ ended
      obtain ⟨others, later, ended⟩ := bind_ok _ _ _ ended
      cases ended
      obtain ⟨distinct, held⟩ := (Value.namesOnce_object fields).mp once
      obtain ⟨fewer, kept⟩ := upgradeCommand_once _ fields command held
        (commands fields List.mem_cons_self) here
      exact List.forall_mem_cons.mpr ⟨(Value.namesOnce_object command).mpr
        ⟨distinct.sublist fewer, kept⟩, after others later⟩
    | _ =>
      obtain ⟨others, later, ended⟩ := bind_ok _ _ _ ended
      cases ended
      exact List.forall_mem_cons.mpr ⟨once, after others later⟩

theorem upgradeCommands_once (value : Value) (result : List Value) (once : value.namesOnce = true)
    (commands : ∀ items, value = .list items → ∀ inner : Fields, .object inner ∈ items →
      ArgsOnce (inner.read "command") inner)
    (ended : upgradeCommands value = .ok result) : (Value.list result).namesOnce = true := by
  cases value with
  | list items =>
    have each := (Value.namesOnce_list items).mp once
    exact (Value.namesOnce_list result).mpr
      (upgradeItems_once items result each (commands items rfl) ended)
  | text content =>
    cases ended
    rw [Value.namesOnce_list, List.forall_mem_map]
    exact fun _ _ => rfl
  | object fields =>
    cases ended
    rw [Value.namesOnce_list, List.forall_mem_map]
    exact fun _ _ => rfl
  | _ =>
    unfold upgradeCommands at ended
    split at ended <;> cases ended
    rfl

theorem upgradeSequence_once (fields result : Fields)
    (each : ∀ field ∈ fields, field.2.namesOnce = true)
    (commands : ∀ value, ("commands", value) ∈ fields → ∀ upgraded,
      upgradeCommands value = .ok upgraded → (Value.list upgraded).namesOnce = true)
    (ended : upgradeSequence fields = .ok result) :
    result.names = fields.names ∧ ∀ field ∈ result, field.2.namesOnce = true := by
  induction fields generalizing result with
  | nil =>
    cases ended
    exact ⟨rfl, by simp⟩
  | cons field rest ih =>
    obtain ⟨name, value⟩ := field
    rw [upgradeSequence] at ended
    obtain ⟨after, later, ended⟩ := bind_ok _ _ _ ended
    obtain ⟨names, others⟩ := ih after (fun field member => each field (.tail _ member))
      (fun value member => commands value (.tail _ member)) later
    split at ended
    · next sequence =>
      subst sequence
      obtain ⟨upgraded, here, ended⟩ := bind_ok _ _ _ ended
      cases ended
      have once := commands value List.mem_cons_self upgraded here
      exact ⟨congrArg ("commands" :: ·) names, List.forall_mem_cons.mpr ⟨once, others⟩⟩
    · cases ended
      have once := each (name, value) List.mem_cons_self
      exact ⟨congrArg (name :: ·) names, List.forall_mem_cons.mpr ⟨once, others⟩⟩

theorem condition_once (fields : Fields) (old new : String) :
    (condition fields old new).names.Sublist [new] ∧
      ∀ field ∈ condition fields old new, field.2.namesOnce = true := by
  unfold condition
  dsimp only
  split
  · exact ⟨List.nil_sublist _, by simp⟩
  · exact ⟨List.Sublist.refl _, by simp [doubledText, Value.namesOnce]⟩

theorem historyArgs_once (fields : Fields) : (historyArgs fields).namesOnce = true := by
  obtain ⟨first, places⟩ := condition_once fields "at" "whereComputedIndexIs"
  obtain ⟨second, ranges⟩ := condition_once fields "range" "whereComputedRangeIs"
  rw [historyArgs, Value.namesOnce_object, Fields.names, List.map_append, List.forall_mem_append]
  have apart : ["whereComputedIndexIs", "whereComputedRangeIs"].Nodup := by decide
  exact ⟨apart.sublist (first.append second), places, ranges⟩

theorem registerArgs_once (fields : Fields) : (registerArgs fields).namesOnce = true := by
  rw [registerArgs, Value.namesOnce_object]
  have apart : ["description", "register"].Nodup := by decide
  exact ⟨apart, by simp [doubledText, Value.namesOnce]⟩

/-- The commands of a sequence are added where they were missing. -/
theorem withCommands_once (fields sequence : Fields) (distinct : fields.names.Nodup)
    (names : sequence.names = fields.names)
    (kept : ∀ field ∈ sequence, field.2.namesOnce = true) :
    (Value.object (sequence ++ if Fields.has "commands" fields then []
      else [("commands", .list [])])).namesOnce = true := by
  rw [Value.namesOnce_object, List.forall_mem_append]
  split
  · rw [List.append_nil, names]
    exact ⟨distinct, kept, by simp⟩
  · next lacks =>
    have new : "commands" ∉ fields.names := by
      rw [← Fields.get?_eq_none_iff]
      simpa [Fields.has] using lacks
    refine ⟨?_, kept, by simp [Value.namesOnce, Value.itemsNameOnce]⟩
    rw [← Fields.insert_of_new "commands" (.list []) sequence (names ▸ new)]
    exact Fields.nodup_insert _ _ sequence (names ▸ distinct)

theorem upgradeArgs_once (command value result : Value) (once : value.namesOnce = true)
    (ended : upgradeArgs command value = .ok result) : result.namesOnce = true := by
  cases value with
  | object fields =>
    obtain ⟨distinct, each⟩ := (Value.namesOnce_object fields).mp once
    rw [upgradeArgs] at ended
    dsimp only at ended
    split at ended
    · -- What is upgraded in the commands lies deeper than the arguments that hold them.
      have nested : ∀ items, ("commands", .list items) ∈ fields → ∀ inner : Fields,
          .object inner ∈ items → ArgsOnce (inner.read "command") inner := by
        intro items given inner listed field held upgraded ended
        have whole := (Value.namesOnce_list items).mp (each _ given) _ listed
        have inside := ((Value.namesOnce_object inner).mp whole).2 field held
        exact upgradeArgs_once (inner.read "command") field.2 upgraded inside ended
      obtain ⟨sequence, here, ended⟩ := bind_ok _ _ _ ended
      cases ended
      obtain ⟨names, kept⟩ := upgradeSequence_once fields sequence each
        (fun value given upgraded => upgradeCommands_once value upgraded (each _ given)
          fun items list => nested items (list ▸ given)) here
      exact withCommands_once fields sequence distinct names kept
    · split at ended
      · cases ended
        exact registerArgs_once fields
      · split at ended <;> cases ended
        · exact historyArgs_once fields
        · exact doubleIn_once _ once
  | _ =>
    cases ended
    exact doubleIn_once _ once
termination_by sizeOf value
decreasing_by
  subst_vars
  exact smaller_of_inside fields inner items field.1 field.2 given listed held

theorem converted_once (root : Fields) (path : Path) (conversion : Conversion)
    (value result : Value) (once : value.namesOnce = true)
    (ended : conversion.apply root path value = .ok result) : result.namesOnce = true := by
  cases conversion with
  | version =>
    cases ended
    rfl
  | prefixes =>
    unfold Conversion.apply at ended
    dsimp only at ended
    split at ended <;> cases ended
    · rfl
    · exact once
  | placeholders =>
    cases ended
    exact doubleIn_once value once
  | arguments => exact upgradeArgs_once _ value result once ended

variable (table : List Rule) (root : Fields)

theorem upgradeFields_once (path : Path) (before fields result : Fields)
    (each : ∀ field ∈ fields, ∀ path conversion upgraded,
      upgradeValue table root path conversion field.2 = .ok upgraded → upgraded.namesOnce = true)
    (once : (Value.object before).namesOnce = true)
    (ended : upgradeFields table root path before fields = .ok result) :
    (Value.object result).namesOnce = true := by
  induction fields generalizing before with
  | nil =>
    cases ended
    exact once
  | cons field rest ih =>
    obtain ⟨name, value⟩ := field
    rw [upgradeFields] at ended
    obtain ⟨upgraded, here, ended⟩ := bind_ok _ _ _ ended
    refine ih _ (fun field member => each field (.tail _ member)) ?_ ended
    obtain ⟨distinct, held⟩ := (Value.namesOnce_object before).mp once
    refine (Value.namesOnce_object _).mpr ⟨Fields.nodup_insert _ _ before distinct, ?_⟩
    intro field member
    rcases Fields.mem_insert _ _ before field member with old | rfl
    · exact held field old
    · exact each (name, value) List.mem_cons_self _ _ upgraded here

theorem upgradeList_once (path : Path) (index : Nat) (items result : List Value)
    (each : ∀ item ∈ items, ∀ path conversion upgraded,
      upgradeValue table root path conversion item = .ok upgraded → upgraded.namesOnce = true)
    (ended : upgradeList table root path index items = .ok result) :
    ∀ item ∈ result, item.namesOnce = true := by
  induction items generalizing index result with
  | nil =>
    cases ended
    simp
  | cons item rest ih =>
    rw [upgradeList] at ended
    obtain ⟨upgraded, here, ended⟩ := bind_ok _ _ _ ended
    obtain ⟨others, later, ended⟩ := bind_ok _ _ _ ended
    cases ended
    exact List.forall_mem_cons.mpr ⟨each item List.mem_cons_self _ _ upgraded here,
      ih _ others (fun item member => each item (.tail _ member)) later⟩

theorem upgradeValue_once (path : Path) (conversion : Option Conversion) (value result : Value)
    (once : value.namesOnce = true)
    (ended : upgradeValue table root path conversion value = .ok result) :
    result.namesOnce = true := by
  induction value using Value.byContents generalizing path conversion result with
  | leaf value atom =>
    cases conversion with
    | none =>
      cases (upgradeValue_leaf table root path value atom).symm.trans ended
      exact once
    | some conversion =>
      rw [upgradeValue_converts] at ended
      exact converted_once root path conversion value result once ended
  | list items ih =>
    cases conversion with
    | none =>
      rw [upgradeValue] at ended
      obtain ⟨upgraded, here, ended⟩ := bind_ok _ _ _ ended
      cases ended
      have each := (Value.namesOnce_list items).mp once
      exact (Value.namesOnce_list upgraded).mpr (upgradeList_once table root path 0 items upgraded
        (fun item member path conversion result =>
          ih item member path conversion result (each item member)) here)
    | some conversion => exact converted_once root path conversion _ result once ended
  | object fields ih =>
    cases conversion with
    | none =>
      rw [upgradeValue] at ended
      obtain ⟨upgraded, here, ended⟩ := bind_ok _ _ _ ended
      cases ended
      have each := ((Value.namesOnce_object fields).mp once).2
      exact upgradeFields_once table root path [] fields upgraded
        (fun field member path conversion result =>
          ih field member path conversion result (each field member)) rfl here
    | some conversion => exact converted_once root path conversion _ result once ended

theorem walked_once (path : Path) (fields result : Fields)
    (once : (Value.object fields).namesOnce = true)
    (walked : upgradeFields table root path [] fields = .ok result) :
    (Value.object result).namesOnce = true := by
  refine upgradeValue_once table root path none (.object fields) (.object result) once ?_
  rw [upgradeValue, walked]
  rfl

end Once

end Legacy

end Keymap
