import Schemata.Proofs.Graph.Twins
import Schemata.Proofs.Graph.Merging

/-!
# Documents in another order

Some parts of a document may be written in any order: the names in a list of required names or of bases, and the
definitions of properties, as long as their names are different. A document is *reordered* (`Document.Reordered`) if it
differs from another one in the order of such parts only. Which parts these are depends on what a value is read as, its
role (`Document.Role`): the entries of a schema and of a definition give their values their roles.

A reader does not notice. From a reordered definition it reads a similar tree, or it fails for both
(`Shape.parseField_reordered`).
-/

namespace Schemata

namespace Document

/-- What a value is read as, as far as the order of its parts is concerned. -/
inductive Role where
  /-- The order is part of the value. -/
  | plain
  /-- A list of names, in any order. -/
  | names
  /-- A definition. -/
  | definition
  /-- The definitions of properties by name, in any order. -/
  | properties

/-- The role of the value under a key of a definition. -/
def Role.inDefinition (key : Document) : Role :=
  if key.isKey "properties" then .properties
  else if key.isKey "required" then .names
  else if key.isKey "items" then .definition
  else .plain

/-- The role of the value under a key of a schema. -/
def Role.inSchema (key : Document) : Role :=
  if key.isKey "extends" then .names
  else if key.isKey "schema" then .definition
  else .plain

/-- Entries have the same key, and their values are related in the role that the key gives them. -/
inductive SameKey (r : Role → Document → Document → Prop) (roleOf : Document → Role) :
    Document × Document → Document × Document → Prop where
  /-- There is no other way to have the same key. -/
  | mk {key value value' : Document} (h : r (roleOf key) value value') : SameKey r roleOf (key, value) (key, value')

/-- The entries in another order. If they are not in the same order, then their names, read through tags, are
different. -/
def Arranged (entries entries' : Entries) : Prop :=
  entries = entries' ∨ (entries.filterMap fun entry => entry.1.text?).Nodup ∧ entries.Perm entries'

/-- A value in some role differs from another one in the order of its parts only. -/
inductive Reordered : Role → Document → Document → Prop where
  /-- Nothing is in another order. -/
  | refl (role : Role) (d : Document) : Reordered role d d
  /-- Readers look through tags. -/
  | tagged {role : Role} {d d' : Document} (tag : String) (h : Reordered role d d') :
    Reordered role (.tagged tag d) (.tagged tag d')
  /-- Names are in any order. -/
  | names {items items' : List Document} (h : items.Perm items') : Reordered .names (.list items) (.list items')
  /-- The entries of a definition stay in order. -/
  | definition {entries entries' : Entries} (h : List.Forall₂ (SameKey Reordered Role.inDefinition) entries entries') :
    Reordered .definition (.mapping entries) (.mapping entries')
  /-- The definitions of properties are in any order. -/
  | properties {entries arranged entries' : Entries} (harranged : Arranged entries arranged)
    (h : List.Forall₂ (SameKey Reordered fun _ => .definition) arranged entries') :
    Reordered .properties (.mapping entries) (.mapping entries')

end Document

open Document (Role SameKey Arranged Reordered)

/-- The entries differ in the order of their parts only, each in the role that its key gives it. -/
abbrev Entries.Reordered (roleOf : Document → Role) (entries entries' : Entries) : Prop :=
  List.Forall₂ (SameKey Document.Reordered roleOf) entries entries'

variable {role : Role} {roleOf : Document → Role} {d d' : Document} {entries entries' : Entries} {name : String}

theorem rel_bind {α β γ δ : Type} {r : α → β → Prop} {r' : γ → δ → Prop} {a : Option α} {b : Option β}
    {f : α → Option γ} {f' : β → Option δ} (hab : Option.Rel r a b)
    (hf : ∀ x y, r x y → Option.Rel r' (f x) (f' y)) : Option.Rel r' (a.bind f) (b.bind f') := by
  cases hab with
  | none => exact .none
  | some hxy => exact hf _ _ hxy

/-! ### Values -/

theorem Entries.Reordered.refl (entries : Entries) : entries.Reordered roleOf entries :=
  List.forall₂_same.mpr fun entry _ => .mk (.refl (roleOf entry.1) entry.2)

namespace Document.Reordered

theorem untag (h : Reordered role d d') : Reordered role d.untag d'.untag := by
  induction d using Document.untag.induct generalizing d' with
  | case1 tag value ih =>
    cases h with
    | refl => exact .refl role _
    | tagged _ h =>
      have hvalue := ih h
      exact hvalue
  | case2 value hvalue =>
    cases h with
    | refl => exact .refl role _
    | tagged tag _ => exact absurd rfl (hvalue tag _)
    | names h => exact .names h
    | definition h => exact .definition h
    | properties harranged h => exact .properties harranged h

/-- In the role of a plain value everything is in order. -/
theorem eq_of_plain (h : Reordered .plain d d') : d = d' := by
  induction d using Document.untag.induct generalizing d' with
  | case1 tag value ih =>
    cases h with
    | refl => rfl
    | tagged _ h => rw [ih h]
  | case2 value hvalue =>
    cases h with
    | refl => rfl
    | tagged tag _ => exact absurd rfl (hvalue tag _)

theorem entries?_of_definition (h : Reordered .definition d d') :
    Option.Rel (Entries.Reordered Role.inDefinition) d.entries? d'.entries? := by
  have huntag := h.untag
  rw [Document.entries?, Document.entries?]
  generalize d.untag = value, d'.untag = value' at huntag
  cases huntag with
  | refl =>
    cases value with
    | mapping entries => exact .some (.refl entries)
    | _ => exact .none
  | tagged tag _ => exact .none
  | definition h => exact .some h

theorem entries?_of_properties (h : Reordered .properties d d') :
    Option.Rel (fun entries entries' => ∃ arranged, Arranged entries arranged ∧
      Entries.Reordered (fun _ => .definition) arranged entries') d.entries? d'.entries? := by
  have huntag := h.untag
  rw [Document.entries?, Document.entries?]
  generalize d.untag = value, d'.untag = value' at huntag
  cases huntag with
  | refl =>
    cases value with
    | mapping entries => exact .some ⟨entries, .inl rfl, .refl entries⟩
    | _ => exact .none
  | tagged tag _ => exact .none
  | properties harranged h => exact .some ⟨_, harranged, h⟩

/-- Texts in another order are read in another order. -/
theorem rel_mapM_text? {items items' : List Document} (hperm : items.Perm items') :
    Option.Rel List.Perm (items.mapM text?) (items'.mapM text?) := by
  induction hperm with
  | nil => exact .some .nil
  | @cons x l l' _ ih =>
    rw [List.mapM_cons, List.mapM_cons]
    cases x.text? with
    | none => exact .none
    | some s =>
      generalize l.mapM text? = texts, l'.mapM text? = texts' at ih
      cases ih with
      | none => exact .none
      | some hperm => exact .some (hperm.cons s)
  | swap x y l =>
    simp only [List.mapM_cons]
    cases x.text? with
    | none => cases y.text? <;> exact .none
    | some s =>
      cases y.text? with
      | none => exact .none
      | some t =>
        cases l.mapM text? with
        | none => exact .none
        | some texts => exact .some (.swap s t texts)
  | @trans l l' l'' _ _ ih ih' =>
    generalize l.mapM text? = texts, l'.mapM text? = texts', l''.mapM text? = texts'' at ih ih'
    cases ih with
    | none => exact ih'
    | some hperm =>
      cases ih' with
      | some hperm' => exact .some (hperm.trans hperm')

theorem textList? (h : Reordered .names d d') : Option.Rel List.Perm d.textList? d'.textList? := by
  cases h with
  | refl =>
    cases hd : d.textList? with
    | none => exact .none
    | some texts => exact .some (.refl texts)
  | tagged tag _ => exact .none
  | names hperm => exact rel_mapM_text? hperm

end Document.Reordered

/-! ### Entries -/

theorem Entries.get?_cons (key value : Document) (rest : Entries) (name : String) :
    Entries.get? ((key, value) :: rest) name = if key.isKey name then some value else rest.get? name := by
  cases hkey : key.isKey name <;> simp [Entries.get?, hkey]

namespace Entries.Reordered

variable (h : entries.Reordered roleOf entries')

include h

theorem get? (name : String) :
    Option.Rel (Document.Reordered (roleOf (.text name))) (entries.get? name) (entries'.get? name) := by
  induction h with
  | nil => exact .none
  | @cons entry entry' _ _ hentry _ ih =>
    cases hentry with
    | @mk key value value' hvalue =>
      rw [Entries.get?_cons, Entries.get?_cons]
      split_ifs with hkey
      · obtain rfl : key = .text name := by
          cases key with
          | text s => rw [eq_of_beq (show (s == name) = true from hkey)]
          | _ => exact nomatch hkey
        exact .some hvalue
      · exact ih

theorem get?_eq (name : String) (hrole : roleOf (.text name) = .plain) : entries.get? name = entries'.get? name := by
  have hget := h.get? name
  rw [hrole] at hget
  generalize entries.get? name = value, entries'.get? name = value' at hget
  cases hget with
  | none => rfl
  | some hvalue => rw [hvalue.eq_of_plain]

end Entries.Reordered

/-! ### Required names -/

theorem Registry.get?_foldl_insert_id (names : List String) (name : String) : ∀ r : Registry String,
    (names.foldl (Registry.insert id) r).get? name = if name ∈ names then some name else r.get? name := by
  induction names with
  | nil => simp
  | cons n names ih =>
    intro r
    rw [List.foldl_cons, ih, Registry.insert, Registry.get?_put, id]
    by_cases hmem : name ∈ names
    · simp [hmem]
    · by_cases hname : name = n <;> simp [hmem, hname]

theorem Registry.mem_elements_ofList_id {names : List String} :
    name ∈ (Registry.ofList id names).elements ↔ name ∈ names := by
  have hget : (Registry.ofList id names).get? name = some name ↔ _ :=
    (Registry.filed_ofList id names).get?_eq_some_iff
  rw [Registry.ofList, Registry.get?_foldl_insert_id] at hget
  simpa [Registry.ofList] using hget.symm

namespace Shape

theorem mem_ascending {names : List String} : name ∈ ascending names ↔ name ∈ names := by
  rw [ascending, (Registry.filed_ofList id names).keys_eq, List.map_id, Registry.mem_elements_ofList_id]

theorem ascending_eq_of_perm {names names' : List String} (hperm : names.Perm names') :
    ascending names = ascending names' := by
  have heq : Registry.ofList id names = Registry.ofList id names' :=
    (Registry.filed_ofList id names).eq_of_mem_iff (Registry.filed_ofList id names') fun name => by
      rw [Registry.mem_elements_ofList_id, Registry.mem_elements_ofList_id, hperm.mem_iff]
  rw [ascending, ascending, heq]

theorem requiredNames?_eq (h : entries.Reordered Role.inDefinition entries') :
    requiredNames? entries = requiredNames? entries' := by
  have hget := h.get? "required"
  rw [requiredNames?, requiredNames?]
  generalize entries.get? "required" = value, entries'.get? "required" = value' at hget
  cases hget with
  | none => rfl
  | @some value value' hvalue =>
    have hnames := Document.Reordered.textList? hvalue
    simp only
    generalize value.textList? = texts, value'.textList? = texts' at hnames
    cases hnames with
    | none => rfl
    | some hperm => rw [Option.map_some, Option.map_some, ascending_eq_of_perm hperm]

/-! ### Fields -/

section Fields

variable {fields fields' : List (Field × Shape)} {field : Field × Shape}

/-- Fields in the same order, over related trees. -/
theorem rel_field? {r : Shape → Shape → Prop} (h : List.Forall₂ (fun a b => a.1 = b.1 ∧ r a.2 b.2) fields fields')
    (name : String) : Option.Rel (fun a b => a.1 = b.1 ∧ r a.2 b.2) (field? fields name) (field? fields' name) := by
  induction h with
  | nil => exact .none
  | @cons a b rest rest' hab _ ih =>
    rw [field?, field?, hab.1]
    generalize field? rest name = found, field? rest' name = found' at ih
    cases ih with
    | some h => exact .some h
    | none =>
      rw [Option.none_or, Option.none_or]
      split_ifs
      · exact .some hab
      · exact .none

theorem field?_eq_some_iff (hnames : (fields.map (·.1.name)).Nodup) :
    field? fields name = some field ↔ field ∈ fields ∧ field.1.name = name := by
  induction fields generalizing field with
  | nil => simp [field?]
  | cons first rest ih =>
    obtain ⟨hfirst, hrest⟩ := List.nodup_cons.mp hnames
    rw [field?, Option.or_eq_some_iff, ih hrest, List.mem_cons]
    constructor
    · rintro (⟨hmem, hname⟩ | ⟨-, hfound⟩)
      · exact ⟨.inr hmem, hname⟩
      · split_ifs at hfound with hname
        obtain rfl := Option.some.inj hfound
        exact ⟨.inl rfl, hname⟩
    · rintro ⟨rfl | hmem, hname⟩
      · refine .inr ⟨?_, by rw [if_pos hname]⟩
        -- No other field has the name of the first one.
        rw [Option.eq_none_iff_forall_ne_some]
        intro other hother
        obtain ⟨hmem, hother⟩ := (ih hrest).mp hother
        exact hfirst (List.mem_map.mpr ⟨other, hmem, hother.trans hname.symm⟩)
      · exact .inl ⟨hmem, hname⟩

theorem field?_eq_of_perm (hnames : (fields.map (·.1.name)).Nodup) (hperm : fields.Perm fields') (name : String) :
    field? fields name = field? fields' name := by
  refine Option.ext fun field => ?_
  rw [field?_eq_some_iff hnames, field?_eq_some_iff ((hperm.map _).nodup_iff.mp hnames), hperm.mem_iff]

end Fields

/-- Read the definition of one property of an object. -/
def parseEntry (ctx : Context) (required : List String) (entry : Document × Document) :
    Except ItemError (Field × Shape) :=
  match entry.1.text? with
  | none => .error (.badPropertyName ctx.path)
  | some name =>
    match entry.2.entries? with
    | none => .error (.badPropertyDefinition ctx.path name)
    | some data => parseField (ctx.property required name) name data

theorem parseFields_eq_mapM (ctx : Context) (required : List String) (definitions : Entries) :
    parseFields ctx required definitions = definitions.mapM (parseEntry ctx required) := by
  induction definitions with
  | nil => rw [parseFields, List.mapM_nil]; rfl
  | cons entry rest ih =>
    obtain ⟨key, definition⟩ := entry
    rw [parseFields, List.mapM_cons, parseEntry, ih]
    simp only
    cases key.text? with
    | none => rfl
    | some name =>
      simp only
      cases definition.entries? with
      | none => rfl
      | some data =>
        simp only
        cases parseField (ctx.property required name) name data with
        | error e => rfl
        | ok field => cases rest.mapM (parseEntry ctx required) <;> rfl

/-- The names of the fields are the names of the entries, read through tags. -/
theorem map_name_of_mapM_parseEntry {ctx : Context} {required : List String} {definitions : Entries}
    {fields : List (Field × Shape)} (hparse : definitions.mapM (parseEntry ctx required) = .ok fields) :
    (definitions.filterMap fun entry => entry.1.text?) = fields.map (·.1.name) := by
  rw [mapM_eq_ok_iff] at hparse
  induction hparse with
  | nil => rfl
  | @cons entry field rest fields hentry _ ih =>
    obtain ⟨key, definition⟩ := entry
    obtain ⟨field, shape⟩ := field
    rw [parseEntry] at hentry
    simp only at hentry
    split at hentry
    · cases hentry
    · rename_i name hname
      split at hentry
      · cases hentry
      · rw [List.filterMap_cons, hname, ih, List.map_cons, (named_of_parseField hentry).1]

/-- Definitions in another order are read as the same fields by name. -/
theorem parseFields_arranged {ctx : Context} {required : List String} {definitions arranged : Entries}
    (harranged : Arranged definitions arranged) :
    ExceptRel (fun fields fields' => ∀ name, field? fields name = field? fields' name)
      (parseFields ctx required definitions) (parseFields ctx required arranged) := by
  rw [parseFields_eq_mapM, parseFields_eq_mapM]
  rcases harranged with rfl | ⟨hnodup, hperm⟩
  · cases definitions.mapM (parseEntry ctx required) with
    | error e => exact .error e e
    | ok fields => exact .ok fun _ => rfl
  · refine (exceptRel_mapM_of_perm hperm).imp fun fields fields' hfields _ hperm' => ?_
    rw [map_name_of_mapM_parseEntry hfields] at hnodup
    exact field?_eq_of_perm hnodup hperm'

/-! ### Trees -/

theorem parseItem_array {ctx : Context} {type : TypeClass} (htype : type.token = .array) (data : Entries) :
    parseItem ctx type data =
      match (data.get? "items").bind Document.entries? with
      | none => .error (.arrayWithoutItems ctx.path)
      | some items =>
        match items.get? "type" with
        | none => .error (.itemsWithoutType ctx.path)
        | some rawType =>
          match TypeClass.ofDocument? rawType with
          | none => .error (.unsupportedType ctx.path rawType)
          | some element => (parseItem ctx element items).map .array := by
  rw [parseItem, htype]
  simp only
  split
  · rename_i hitems
    rw [hitems]
    rfl
  · rename_i raw hitems
    rw [hitems, Option.bind_some]
    split
    · rename_i hentries
      rw [hentries]
    · rename_i items hentries
      exact hentries ▸ rfl

theorem parseItem_object {ctx : Context} {type : TypeClass} (htype : type.token = .object) (data : Entries) :
    parseItem ctx type data =
      match requiredNames? data with
      | none => .error (.badRequired ctx.path)
      | some required =>
        match data.get? "properties" with
        | none => .ok (.object ctx.path (keptNames ctx required) [])
        | some raw =>
          match raw.entries? with
          | none => .error (.badPropertiesShape ctx.path)
          | some definitions =>
            (parseFields ctx required definitions).map (.object ctx.path (keptNames ctx required)) := by
  rw [parseItem, htype]
  simp only
  cases requiredNames? data with
  | none => rfl
  | some required =>
    simp only
    split
    · rename_i hproperties
      rw [hproperties]
    · rename_i raw hproperties
      rw [hproperties]
      simp only
      split
      · rename_i hentries
        rw [hentries]
      · rename_i definitions hentries
        rw [hentries]

/-- A property is read from a reordered definition like from the definition, if its item is. -/
theorem parseField_reordered_of_parseItem (h : entries.Reordered Role.inDefinition entries')
    (hitem : ∀ ctx type, ExceptRel Similar (parseItem ctx type entries) (parseItem ctx type entries')) (ctx : Context)
    (name : String) : ExceptRel (fun a b => a.1 = b.1 ∧ Similar a.2 b.2) (parseField ctx name entries)
      (parseField ctx name entries') := by
  have hbelow : ctx.below name entries = ctx.below name entries' := by
    rw [Context.below, Context.below, h.get?_eq "default" rfl]
  rw [parseField, parseField, ← h.get?_eq "type" rfl, ← hbelow]
  cases entries.get? "type" with
  | none => exact .error _ _
  | some rawType =>
    simp only
    cases TypeClass.ofDocument? rawType with
    | none => exact .error _ _
    | some type => exact (hitem _ type).map fun _ _ hsimilar => ⟨rfl, hsimilar⟩

/-- The fields of an object are read from reordered definitions like from the definitions, if the items of its properties
are. -/
theorem parseFields_reordered_of_parseItem {definitions arranged definitions' : Entries}
    (harranged : Arranged definitions arranged) (h : arranged.Reordered (fun _ => .definition) definitions')
    (hitem : ∀ entry ∈ definitions, ∀ data data', entry.2.entries? = some data →
      data.Reordered Role.inDefinition data' → ∀ ctx type,
      ExceptRel Similar (parseItem ctx type data) (parseItem ctx type data'))
    (ctx : Context) (required : List String) :
    ExceptRel (fun fields fields' => ∀ name,
        Option.Rel (fun a b => a.1 = b.1 ∧ Similar a.2 b.2) (field? fields name) (field? fields' name))
      (parseFields ctx required definitions) (parseFields ctx required definitions') := by
  have hmem : ∀ entry ∈ arranged, entry ∈ definitions := by
    rcases harranged with rfl | ⟨-, hperm⟩
    · exact fun _ hentry => hentry
    · exact fun _ hentry => hperm.mem_iff.mpr hentry
  have hentries : List.Forall₂ (fun entry entry' => ExceptRel (fun a b => a.1 = b.1 ∧ Similar a.2 b.2)
      (parseEntry ctx required entry) (parseEntry ctx required entry')) arranged definitions' := by
    refine ((List.forall₂_and_left arranged definitions').mpr ⟨hmem, h⟩).imp ?_
    rintro _ _ ⟨hentry, hsame⟩
    cases hsame with
    | @mk key value value' hvalue =>
      rw [parseEntry, parseEntry]
      simp only
      cases key.text? with
      | none => exact .error _ _
      | some name =>
        have hboth := hvalue.entries?_of_definition
        simp only
        cases hdata : value.entries? with
        | none =>
          rw [hdata] at hboth
          generalize value'.entries? = found' at hboth
          cases hboth
          exact .error _ _
        | some data =>
          rw [hdata] at hboth
          obtain ⟨data', hdata', hreordered⟩ := Graph.exists_of_some_rel hboth
          rw [hdata']
          exact parseField_reordered_of_parseItem hreordered (hitem _ hentry data data' hdata hreordered) _ name
  have hfields := exceptRel_mapM hentries
  rw [← parseFields_eq_mapM, ← parseFields_eq_mapM] at hfields
  refine (parseFields_arranged harranged).trans hfields fun fields fields' fields'' hsame hrel name => ?_
  rw [hsame name]
  exact rel_field? hrel name

/-- **From a reordered definition a similar tree is read**, or neither can be read. -/
theorem parseItem_reordered (h : entries.Reordered Role.inDefinition entries') (ctx : Context) (type : TypeClass) :
    ExceptRel Similar (parseItem ctx type entries) (parseItem ctx type entries') := by
  induction hsize : sizeOf entries using Nat.strong_induction_on generalizing entries entries' ctx type with
  | _ n ih =>
    cases htype : type.token with
    | scalar kind =>
      have hdefault : entries.hasKey "default" = entries'.hasKey "default" := by
        rw [Entries.hasKey, Entries.hasKey, h.get?_eq _ rfl]
      rw [parseItem, parseItem, htype]
      simp only [scalarOf, hdefault]
      exact .ok (.scalar _)
    | array =>
      have hitems : Option.Rel (Entries.Reordered Role.inDefinition) ((entries.get? "items").bind Document.entries?)
          ((entries'.get? "items").bind Document.entries?) :=
        rel_bind (h.get? "items") fun _ _ hraw => hraw.entries?_of_definition
      rw [parseItem_array htype, parseItem_array htype]
      cases hfound : (entries.get? "items").bind Document.entries? with
      | none =>
        rw [hfound] at hitems
        generalize (entries'.get? "items").bind Document.entries? = found' at hitems
        cases hitems
        exact .error _ _
      | some items =>
        obtain ⟨raw, hraw, hitemsOf⟩ := Option.bind_eq_some_iff.mp hfound
        have hlt := Entries.sizeOf_get?_lt hraw
        have hlt' := Document.sizeOf_entries?_lt hitemsOf
        rw [hfound] at hitems
        obtain ⟨items', hfound', hitems⟩ := Graph.exists_of_some_rel hitems
        simp only [hfound', ← hitems.get?_eq "type" rfl]
        cases items.get? "type" with
        | none => exact .error _ _
        | some rawType =>
          simp only
          cases TypeClass.ofDocument? rawType with
          | none => exact .error _ _
          | some element => exact (ih _ (by omega) hitems ctx element rfl).map fun _ _ => .array
    | object =>
      have hproperties := h.get? "properties"
      rw [parseItem_object htype, parseItem_object htype, ← requiredNames?_eq h]
      cases requiredNames? entries with
      | none => exact .error _ _
      | some required =>
        simp only
        cases hraw : entries.get? "properties" with
        | none =>
          rw [hraw] at hproperties
          generalize entries'.get? "properties" = found' at hproperties
          cases hproperties
          exact .ok (.object _ _ (fun _ => .none) fun _ _ hsimilar => hsimilar)
        | some raw =>
          rw [hraw] at hproperties
          obtain ⟨raw', hraw', hproperties⟩ := Graph.exists_of_some_rel hproperties
          have hboth := Document.Reordered.entries?_of_properties hproperties
          simp only [hraw']
          cases hdefinitions : raw.entries? with
          | none =>
            rw [hdefinitions] at hboth
            generalize raw'.entries? = found' at hboth
            cases hboth
            exact .error _ _
          | some definitions =>
            rw [hdefinitions] at hboth
            obtain ⟨definitions', hdefinitions', arranged, harranged, hreordered⟩ := Graph.exists_of_some_rel hboth
            rw [hdefinitions']
            refine (parseFields_reordered_of_parseItem harranged hreordered ?_ ctx required).map fun _ _ hfields =>
              .object _ _ hfields fun _ _ hsimilar => hsimilar
            intro entry hentry data data' hdata hdata' ctx type
            have hlt := Entries.sizeOf_get?_lt hraw
            have hlt' := Document.sizeOf_entries?_lt hdefinitions
            have hlt'' := Document.sizeOf_entries?_lt hdata
            have hmem := List.sizeOf_lt_of_mem hentry
            have hentry : sizeOf entry = 1 + sizeOf entry.1 + sizeOf entry.2 := rfl
            exact ih _ (by omega) hdata' ctx type rfl

theorem parseField_reordered (h : entries.Reordered Role.inDefinition entries') (ctx : Context) (name : String) :
    ExceptRel (fun a b => a.1 = b.1 ∧ Similar a.2 b.2) (parseField ctx name entries) (parseField ctx name entries') :=
  parseField_reordered_of_parseItem h (parseItem_reordered h) ctx name

end Shape

end Schemata
