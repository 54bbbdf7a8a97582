import Keymap.Entry.Definition
import Keymap.Proofs.Entry.Defaults
import Keymap.Proofs.Entry.Reordering
import Keymap.Proofs.Schema.Binding

/-!
Fields that are not set. A field that holds null counts as one that is not there: laying an entry
over its default, settling its references, expanding its variables and reading what they come to
all commute with erasing such a field (`erase_laidOver`, `resolve_erase`, `expand_erase`,
`readBinding_erase`). Three fields are read another way by one of the stages and stay apart from
that stage: `when`, `command` and `foreach`.
-/

set_option autoImplicit false

namespace Keymap

namespace Fields

/-- Whether a mapping holds nothing under a name, be it null or not there at all. -/
def Unset (name : String) (fields : Fields) : Prop :=
  ∀ value, (name, value) ∈ fields → value = .null

variable {name : String}

theorem unset_of_new (fields : Fields) (new : name ∉ fields.names) : fields.Unset name :=
  fun value held => absurd ((mem_names_iff name fields).mpr ⟨value, held⟩) new

theorem erase_cons_self (value : Value) (rest : Fields) :
    erase name ((name, value) :: rest) = erase name rest := by
  simp [erase]

theorem erase_cons_of_ne (field : String × Value) (rest : Fields) (other : field.1 ≠ name) :
    erase name (field :: rest) = field :: erase name rest := by
  simp [erase, other]

theorem Unset.tail {field : String × Value} {rest : Fields} (unset : Unset name (field :: rest)) :
    Unset name rest :=
  fun value later => unset value (.tail _ later)

theorem Unset.read {fields : Fields} (unset : fields.Unset name) : fields.read name = .null := by
  unfold Fields.read
  cases found : fields.get? name with
  | none => rfl
  | some value => exact unset value (mem_of_get? name value fields found)

theorem read_erase (fields : Fields) (asked : String) (other : asked ≠ name) :
    (fields.erase name).read asked = fields.read asked := by
  rw [Fields.read, get?_erase, if_neg other, Fields.read]

theorem Unset.read_erase {fields : Fields} (unset : fields.Unset name) (asked : String) :
    (fields.erase name).read asked = fields.read asked := by
  by_cases same : asked = name
  · subst same
    rw [unset.read, Fields.read, get?_erase, if_pos rfl]
    rfl
  · exact Fields.read_erase fields asked same

theorem erase_insert_of_ne (fields : Fields) (other : String) (value : Value)
    (apart : other ≠ name) :
    (fields.insert other value).erase name = (fields.erase name).insert other value := by
  unfold erase
  induction fields with
  | nil => simp [insert, apart]
  | cons field rest ih =>
    obtain ⟨known, held⟩ := field
    by_cases here : known = other
    · subst here
      simp [insert, apart]
    · by_cases gone : known = name
      · simpa [insert, here, gone, Ne.symm apart] using ih
      · simpa [insert, here, gone] using ih

theorem insert_insert (fields : Fields) (old new : Value) :
    (fields.insert name old).insert name new = fields.insert name new := by
  induction fields with
  | nil => simp [insert]
  | cons field rest ih =>
    obtain ⟨known, held⟩ := field
    by_cases same : known = name
    · simp [insert, same]
    · simp [insert, same, ih]

theorem Unset.insert {fields : Fields} (unset : fields.Unset name) (other : String) (value : Value)
    (apart : other = name → value = .null) : (fields.insert other value).Unset name := by
  intro held among
  rcases mem_insert other value fields _ among with before | set
  · exact unset held before
  · cases set
    exact apart rfl

theorem insert_null {fields : Fields} (unset : fields.Unset name) (held : name ∈ fields.names) :
    fields.insert name .null = fields := by
  induction fields with
  | nil => cases held
  | cons field rest ih =>
    obtain ⟨known, value⟩ := field
    by_cases same : known = name
    · subst same
      rw [Fields.insert, if_pos rfl, unset value List.mem_cons_self]
    · have later : name ∈ Fields.names rest := (List.mem_cons.mp held).resolve_left (Ne.symm same)
      rw [Fields.insert, if_neg same, ih unset.tail later]

theorem erase_comm (fields : Fields) (other : String) :
    (fields.erase other).erase name = (fields.erase name).erase other :=
  List.filter_comm _ _ fields

theorem Unset.erase {fields : Fields} (unset : fields.Unset name) (other : String) :
    (fields.erase other).Unset name :=
  fun value held => unset value (List.mem_of_mem_filter held)

/-- Mappings that differ at most in where they name a field that neither sets. -/
def Alike (name : String) (left right : Fields) : Prop :=
  left = right ∨ left.Unset name ∧ right.Unset name ∧ left.erase name = right.erase name

theorem Alike.get?_of_ne {left right : Fields} (alike : Alike name left right) (asked : String)
    (other : asked ≠ name) : left.get? asked = right.get? asked := by
  rcases alike with rfl | ⟨_, _, same⟩
  · rfl
  · have found := congrArg (Fields.get? asked) same
    rwa [get?_erase, get?_erase, if_neg other, if_neg other] at found

theorem alike_insert_null {fields : Fields} (unset : fields.Unset name) :
    Alike name (fields.insert name .null) fields :=
  .inr ⟨unset.insert name .null fun _ => rfl, unset, erase_insert_self name .null fields⟩

theorem alike_added {front back : Fields} (unset : Unset name (front ++ back)) :
    Alike name (front ++ (name, .null) :: back) (front ++ back) := by
  refine .inr ⟨?_, unset, ?_⟩
  · intro value among
    rcases List.mem_append.mp among with before | after
    · exact unset value (List.mem_append_left back before)
    · rcases List.mem_cons.mp after with here | later
      · cases here
        rfl
      · exact unset value (List.mem_append_right front later)
  · simp [erase]

end Fields

section Defaults

variable {name : String}

theorem mergeDefaults_erase (base upper : Fields) :
    (mergeDefaults base upper).erase name = mergeDefaults (base.erase name) (upper.erase name) := by
  rw [mergeDefaults_eq, mergeDefaults_eq]
  unfold Fields.setAll
  induction upper generalizing base with
  | nil => rfl
  | cons field rest ih =>
    obtain ⟨known, value⟩ := field
    rw [List.foldl_cons, ih]
    by_cases gone : known = name
    · subst gone
      rw [Fields.erase_insert_self, Fields.erase_cons_self]
    · rw [Fields.erase_cons_of_ne _ _ gone, List.foldl_cons, Fields.erase_insert_of_ne _ _ _ gone,
        Fields.get?_erase, if_neg gone]

theorem overDefault_null (known : String) (old : Option Value) :
    overDefault (known, .null) old = .null := by
  cases old with
  | none => rfl
  | some value => simp [overDefault, Value.merge]

theorem mergeDefaults_unset {base upper : Fields} (baseUnset : base.Unset name)
    (unset : upper.Unset name) : (mergeDefaults base upper).Unset name := by
  rw [mergeDefaults_eq]
  unfold Fields.setAll
  induction upper generalizing base with
  | nil => exact baseUnset
  | cons field rest ih =>
    obtain ⟨known, value⟩ := field
    refine ih (baseUnset.insert _ _ ?_) unset.tail
    intro same
    dsimp only at same ⊢
    rw [unset value (same ▸ List.mem_cons_self), overDefault_null]

namespace DefaultTable

theorem erase_laidOver (base : Default) (raw : Fields) (other : name ≠ "when") :
    (laidOver base raw).erase name =
      laidOver ⟨base.fields.erase name, base.appendWhen⟩ (raw.erase name) := by
  unfold laidOver
  dsimp only
  rw [← mergeDefaults_erase, Fields.read_erase _ "when" (Ne.symm other)]
  cases conditions? ((mergeDefaults base.fields raw).read "when") with
  | none => rfl
  | some own =>
    dsimp only
    split
    · rfl
    · exact Fields.erase_insert_of_ne _ _ _ (Ne.symm other)

theorem laidOver_unset {base : Default} {raw : Fields} (inherited : base.fields.Unset name)
    (unset : raw.Unset name) (other : name ≠ "when") : (laidOver base raw).Unset name := by
  have merged := mergeDefaults_unset inherited unset
  unfold laidOver
  dsimp only
  split
  · exact merged
  · split
    · exact merged
    · exact merged.insert _ _ fun same => absurd same.symm other

theorem laidOver_alike {base : Default} (inherited : base.fields.Unset name)
    (other : name ≠ "when") {left right : Fields} (alike : Fields.Alike name left right) :
    Fields.Alike name (laidOver base left) (laidOver base right) := by
  rcases alike with rfl | ⟨leftUnset, rightUnset, same⟩
  · exact .inl rfl
  · refine .inr ⟨?_, ?_, ?_⟩
    · exact laidOver_unset inherited leftUnset other
    · exact laidOver_unset inherited rightUnset other
    · rw [erase_laidOver base left other, erase_laidOver base right other, same]

theorem mergeDefaults_add_null (base upper : Fields) (new : name ∉ upper.names) :
    mergeDefaults base (upper.insert name .null) =
      (mergeDefaults base upper).insert name .null := by
  rw [Fields.insert_of_new name .null upper new, mergeDefaults_eq, mergeDefaults_eq, Fields.setAll,
    Fields.setAll, List.foldl_append, List.foldl_cons, List.foldl_nil, overDefault_null]

/-- The conditions of a default are put where the entry names its own. A null that comes last is
there where they would be put anyway. -/
theorem laidOver_add_null {base : Default} (inherited : base.fields.Unset name) {raw : Fields}
    (unset : raw.Unset name) :
    Fields.Alike name (laidOver base (raw.insert name .null)) (laidOver base raw) := by
  by_cases held : name ∈ raw.names
  · exact .inl (by rw [Fields.insert_null unset held])
  by_cases other : name = "when"
  · subst other
    have merged := mergeDefaults_unset inherited unset
    have mergedToo := merged.insert "when" .null fun _ => rfl
    unfold laidOver
    simp only [mergeDefaults_add_null base.fields raw held, merged.read, mergedToo.read,
      conditions?]
    -- Conditions of the default are written over the null; without any it is left there.
    split
    · exact Fields.alike_insert_null merged
    · exact .inl (Fields.insert_insert _ _ _)
  · exact laidOver_alike inherited other (Fields.alike_insert_null unset)

end DefaultTable

end Defaults

namespace Definition

variable {name : String} (definitions : Fields) (label : String) {entry : Fields}

theorem resolve_erase (unset : entry.Unset name) (other : name ≠ "command") :
    resolve definitions label (entry.erase name) =
      Fields.erase name <$> resolve definitions label entry := by
  have runs : Command.runs (entry.erase name) "runCommands" = Command.runs entry "runCommands" := by
    rw [Command.runs, Fields.get?_erase, if_neg (Ne.symm other), Command.runs]
  unfold resolve
  rw [runs, unset.read_erase]
  split
  · split
    · next args given =>
      split
      · next items listed =>
        have apart : "args" ≠ name := by
          rintro rfl
          cases unset.read.symm.trans given
        cases splice definitions label 0 items with
        | error defect => rfl
        | ok commands => exact congrArg Except.ok (Fields.erase_insert_of_ne _ _ _ apart).symm
      · rfl
    · rfl
  · rfl

theorem resolve_unset (unset : entry.Unset name) (resolved : Fields)
    (ended : resolve definitions label entry = .ok resolved) : resolved.Unset name := by
  unfold resolve at ended
  split at ended
  · split at ended
    · next args given =>
      split at ended
      · obtain ⟨commands, _, ended⟩ := bind_ok _ _ _ ended
        cases ended
        apply unset.insert
        rintro rfl
        cases unset.read.symm.trans given
      · cases ended
        exact unset
    · cases ended
      exact unset
  · cases ended
    exact unset

end Definition

namespace Value

variable {name : String} (scope : Fields)

theorem fillFields_erase {fields : Fields} (unset : fields.Unset name) :
    fillFields scope (fields.erase name) = Fields.erase name <$> fillFields scope fields := by
  induction fields with
  | nil => rfl
  | cons field rest ih =>
    obtain ⟨known, value⟩ := field
    by_cases gone : known = name
    · subst gone
      obtain rfl : value = .null := unset value List.mem_cons_self
      have nothing : fill scope .null = pure .null := by rw [fill, Noted.pure_eq] <;> nofun
      rw [Fields.erase_cons_self, ih unset.tail, fillFields, nothing]
      simp only [pure_bind, bind_pure_comp, Functor.map_map, Fields.erase_cons_self]
    · rw [Fields.erase_cons_of_ne _ _ gone, fillFields, fillFields, ih unset.tail]
      simp only [map_bind, map_pure, bind_map_left, Fields.erase_cons_of_ne (_, _) _ gone]

theorem fillFields_unset {fields : Fields} (unset : fields.Unset name) (filled : Fields)
    (ended : (fillFields scope fields).result = .ok filled) : filled.Unset name := by
  induction fields generalizing filled with
  | nil =>
    cases ended
    exact unset
  | cons field rest ih =>
    obtain ⟨known, value⟩ := field
    rw [fillFields, Noted.bind_eq] at ended
    obtain ⟨first, passed, ended⟩ := Noted.andThen_ok _ _ _ ended
    obtain ⟨others, later, ended⟩ := Noted.andThen_ok _ _ _ ended
    cases ended
    intro held among
    rcases List.mem_cons.mp among with here | there
    · cases here
      obtain rfl : value = .null := unset value List.mem_cons_self
      cases passed
      rfl
    · exact ih unset.tail others later held there

end Value

namespace Foreach

variable {name : String} (definitions : Fields)

/-- A template without a field that it does not set. -/
def Template.erase (template : Template) (name : String) : Template :=
  { template with fields := template.fields.erase name }

theorem ofEntry_erase {entry : Fields} (unset : entry.Unset name) :
    Template.ofEntry (entry.erase name) = (Template.ofEntry entry).erase name := by
  have erased := Fields.get?_erase "prefixes" name entry
  rcases ofEntry_cases entry with ⟨every, form⟩ | ⟨own, form⟩
  · have other : "prefixes" ≠ name := by
      rintro rfl
      cases unset _ (Fields.mem_of_get? _ _ entry every)
    rw [if_neg other, every] at erased
    rcases ofEntry_cases (entry.erase name) with ⟨_, formToo⟩ | ⟨someToo, _⟩
    · rw [formToo, form]
      dsimp only [Template.erase]
      rw [Fields.erase_comm (entry.erase "foreach") "prefixes", Fields.erase_comm entry "foreach"]
    · exact absurd erased someToo
  · rcases ofEntry_cases (entry.erase name) with ⟨everyToo, _⟩ | ⟨_, formToo⟩
    · rw [erased] at everyToo
      split at everyToo
      · cases everyToo
      · exact absurd everyToo own
    · rw [formToo, form, Template.erase, Fields.erase_comm entry "foreach"]

theorem ofEntry_unset {entry : Fields} (unset : entry.Unset name) :
    (Template.ofEntry entry).fields.Unset name ∧
      ((Template.ofEntry entry).anyPrefixes = true → "prefixes" ≠ name) := by
  rcases ofEntry_cases entry with ⟨every, form⟩ | ⟨_, form⟩
  · rw [form]
    refine ⟨(unset.erase _).erase _, ?_⟩
    rintro - rfl
    cases unset _ (Fields.mem_of_get? _ _ entry every)
  · rw [form]
    exact ⟨unset.erase _, fun every => nomatch every⟩

section Filling

variable {template : Template} (unset : template.fields.Unset name)
  (other : template.anyPrefixes = true → "prefixes" ≠ name)

include unset other

theorem fill_erase (combination : Fields) :
    (template.erase name).fill definitions combination =
      Fields.erase name <$> template.fill definitions combination := by
  have filled := Value.fillFields_erase (definitions.overlay combination) unset
  rw [Noted.map_eq] at filled ⊢
  unfold Template.fill Template.erase
  dsimp only
  rw [filled]
  cases (Value.fillFields (definitions.overlay combination) template.fields).result with
  | error overlong => rfl
  | ok fields =>
    refine congrArg (Noted.mk _ ∘ Except.ok) ?_
    split
    · next every => exact (Fields.erase_insert_of_ne _ _ _ (other every)).symm
    · rfl

theorem fill_unset (combination filled : Fields)
    (ended : (template.fill definitions combination).result = .ok filled) : filled.Unset name := by
  unfold Template.fill at ended
  dsimp only at ended
  split at ended
  · cases ended
  · next fields passed =>
    have within := Value.fillFields_unset _ unset fields passed
    cases ended
    split
    · next every => exact within.insert _ _ fun same => absurd same (other every)
    · exact within

theorem fillAll_erase (combinations : List Fields) :
    (template.erase name).fillAll definitions combinations =
      List.map (Fields.erase name) <$> template.fillAll definitions combinations := by
  induction combinations with
  | nil => rfl
  | cons combination rest ih =>
    rw [Template.fillAll, Template.fillAll, fill_erase definitions unset other, ih]
    simp only [map_bind, bind_map_left, map_pure, List.map_cons]

theorem fillAll_unset (combinations filled : List Fields)
    (ended : (template.fillAll definitions combinations).result = .ok filled) :
    ∀ fields ∈ filled, Fields.Unset name fields := by
  induction combinations generalizing filled with
  | nil =>
    cases ended
    exact fun _ among => nomatch among
  | cons combination rest ih =>
    obtain ⟨first, passed, ended⟩ := Noted.andThen_ok _ _ _ ended
    obtain ⟨others, later, ended⟩ := Noted.andThen_ok _ _ _ ended
    cases ended
    exact List.forall_mem_cons.mpr
      ⟨fill_unset definitions unset other combination first passed, ih others later⟩

end Filling

section Expansion

variable (label : String) {entry : Fields} (unset : entry.Unset name)

include unset

theorem expand_erase (other : name ≠ "foreach") :
    expand definitions label (entry.erase name) =
      List.map (Fields.erase name) <$> expand definitions label entry := by
  obtain ⟨within, prefixed⟩ := ofEntry_unset unset
  unfold expand
  rw [Fields.get?_erase, if_neg (Ne.symm other)]
  cases entry.get? "foreach" with
  | none => rfl
  | some value =>
    simp only [ofEntry_erase unset, fillAll_erase definitions within prefixed, map_bind]

theorem expand_unset (entries : List Fields)
    (ended : (expand definitions label entry).result = .ok entries) :
    ∀ fields ∈ entries, Fields.Unset name fields := by
  obtain ⟨within, prefixed⟩ := ofEntry_unset unset
  unfold expand at ended
  split at ended
  · cases ended
    exact List.forall_mem_singleton.mpr unset
  · obtain ⟨ranges, _, ended⟩ := Noted.andThen_ok _ _ _ ended
    exact fillAll_unset definitions within prefixed _ entries ended

end Expansion

end Foreach

namespace Schema

variable {name : String} {entry : Fields} (unset : entry.Unset name)

theorem unknownNames_erase (allowed : List String) (known : name ∈ allowed) :
    unknownNames allowed (entry.erase name) = unknownNames allowed entry := by
  unfold unknownNames Fields.names Fields.erase
  congr 1
  rw [List.filter_map, List.filter_map, List.filter_filter]
  congr 1
  apply List.filter_congr
  intro field _
  by_cases same : field.1 = name
  · simp [same, known]
  · simp [same]

include unset

theorem presentFields_erase (names : List String) :
    presentFields names (entry.erase name) = presentFields names entry := by
  unfold presentFields Fields.erase
  rw [List.filter_filter]
  apply List.filter_congr
  rintro ⟨known, value⟩ among
  by_cases same : known = name
  · subst same
    simp [unset value among, Value.isNull]
  · simp [same]

theorem readDocTexts_erase (label : String) (names : List String) :
    readDocTexts label (entry.erase name) names = readDocTexts label entry names := by
  induction names with
  | nil => rfl
  | cons first rest ih => rw [readDocTexts, readDocTexts, ih, unset.read_erase]

theorem readDocFlags_erase (label : String) (names : List String) :
    readDocFlags label (entry.erase name) names = readDocFlags label entry names := by
  induction names with
  | nil => rfl
  | cons first rest ih => rw [readDocFlags, readDocFlags, ih, unset.read_erase]

theorem readBinding_erase (known : name ∈ bindingFields) (other : name ≠ "foreach")
    (options : Options) (kinds : List Kind) (label : String) (index : Int) :
    readBinding options kinds label index (.object (entry.erase name)) =
      readBinding options kinds label index (.object entry) := by
  have has : (entry.erase name).has "foreach" = entry.has "foreach" := by
    rw [Fields.has, Fields.get?_erase, if_neg (Ne.symm other), Fields.has]
  have action : readAction options label (entry.erase name) = readAction options label entry := by
    unfold readAction rejectUnknown readEntryCommands
    simp only [unknownNames_erase bindingFields known, presentFields_erase unset, has,
      unset.read_erase]
  have docs : readDocs label (entry.erase name) = readDocs label entry := by
    unfold readDocs
    rw [readDocTexts_erase unset, readDocFlags_erase unset]
  have reach : readReach label (entry.erase name) = readReach label entry := by
    unfold readReach
    simp only [unset.read_erase]
  unfold readBinding
  simp only [mapping, Noted.bind_eq, Noted.ofExcept, Noted.andThen]
  rw [action, docs, reach]

end Schema

end Keymap
