import Schemata.Proofs.Drafts

/-!
# The grammar of definitions

Which definitions can be read is told by a grammar (`Entries.WellFormed`), and what is wrong with one that cannot be read
is told by where its first fault stands in the order of reading (`Entries.FirstFault`). The reader follows both: it reads
what is well formed (`Shape.exists_readItem`), it reports the first fault of anything else
(`Shape.readItem_of_firstFault`), and there is no third case (`Shape.followsGrammar`).

A definition is read in the same way in an array as under the name of a property, except for what is reported if it has no
type (`Shape.readItem`). The path goes on at a property, but not at the items of an array.
-/

namespace Schemata

/-! ### Types and lists of texts -/

namespace Document

variable {d : Document} {token : String}

/-- A type has a token: it is that text, or it is a list and that text is the first one in it, the text `null` apart. -/
inductive HasToken : Document → String → Prop where
  /-- A text is its own token. -/
  | text (token : String) : HasToken (.text token) token
  /-- Everything before the token is no text, or it is `null`. -/
  | list {before after : List Document} {token : String} (hbefore : ∀ s, .text s ∈ before → s = "null")
    (htoken : token ≠ "null") : HasToken (.list (before ++ .text token :: after)) token

theorem HasToken.exists_type (h : d.HasToken token) :
    ∃ type, TypeClass.ofDocument? d = some type ∧ type.token = .ofText token := by
  cases h with
  | text => exact ⟨_, rfl, rfl⟩
  | @list before after token hbefore htoken =>
    have hfirst : (before ++ .text token :: after).findSome? TypeClass.token? = some token := by
      refine List.findSome?_eq_some_iff.mpr ⟨before, .text token, after, rfl, by simp [TypeClass.token?, htoken], ?_⟩
      intro d hd
      cases d with
      | text s => simp [TypeClass.token?, hbefore s hd]
      | _ => rfl
    exact ⟨_, by rw [TypeClass.ofDocument?, hfirst]; rfl, rfl⟩

theorem exists_hasToken {type : TypeClass} (h : TypeClass.ofDocument? d = some type) :
    ∃ token, d.HasToken token ∧ type.token = .ofText token := by
  cases d with
  | text token => exact ⟨token, .text token, congrArg TypeClass.token (Option.some.inj h).symm⟩
  | list tokens =>
    obtain ⟨token, hfirst, rfl⟩ := Option.map_eq_some_iff.mp h
    obtain ⟨before, d, after, rfl, hd, hbefore⟩ := List.findSome?_eq_some_iff.mp hfirst
    have hfound : ∀ {d : Document} {s : String}, TypeClass.token? d = some s → d = .text s ∧ s ≠ "null" := by
      intro d s hd
      cases d with
      | text t =>
        simp only [TypeClass.token?, beq_iff_eq] at hd
        split_ifs at hd with hnull
        exact ⟨by rw [Option.some.inj hd], Option.some.inj hd ▸ hnull⟩
      | _ => exact nomatch hd
    obtain ⟨rfl, htoken⟩ := hfound hd
    refine ⟨token, .list (fun s hs => ?_) htoken, rfl⟩
    by_contra hnull
    exact nomatch (hbefore _ hs).symm.trans (show TypeClass.token? (.text s) = some s by simp [TypeClass.token?, hnull])
  | _ => exact nomatch h

/-- A list of texts. The texts may be tagged, the list is not. -/
def IsTextList (d : Document) : Prop :=
  ∃ items, d = .list items ∧ ∀ item ∈ items, item.text?.isSome

theorem isSome_textList?_iff : d.textList?.isSome ↔ d.IsTextList := by
  have hitems : ∀ items : List Document, (items.mapM text?).isSome ↔ ∀ item ∈ items, item.text?.isSome := by
    intro items
    induction items with
    | nil => simp
    | cons item items ih =>
      rw [List.mapM_cons, List.forall_mem_cons, ← ih]
      cases item.text? with
      | none => simp
      | some s => cases items.mapM text? <;> simp
  cases d with
  | list items => simpa [textList?, IsTextList] using hitems items
  | _ => simp [textList?, IsTextList]

end Document

open Shape (Context)

variable {ctx : Context} {data items below body : Entries} {missing : String → ItemError} {path name token : String}
  {entry : Document × Document} {e : ItemError} {shape : Shape}

/-! ### The grammar of definitions -/

namespace Entries

/-- The definition has a type with a token. -/
def HasType (data : Entries) (token : String) : Prop :=
  ∃ raw, data.get? "type" = some raw ∧ raw.HasToken token

/-- The required names are a list of texts, if there are any. -/
def ListsRequired (data : Entries) : Prop :=
  ∀ raw, data.get? "required" = some raw → raw.IsTextList

/-- The properties are a mapping, if there are any. -/
def MapsProperties (data : Entries) : Prop :=
  ∀ raw, data.get? "properties" = some raw → raw.entries?.isSome

/-- A definition that can be read. -/
inductive WellFormed : Entries → Prop where
  /-- A definition of any other type is one of a scalar. -/
  | scalar {data : Entries} {token : String} (htype : data.HasType token) (harray : token ≠ "array")
    (hobject : token ≠ "object") : WellFormed data
  /-- The items of an array are a definition. -/
  | array {data items : Entries} (htype : data.HasType "array")
    (hitems : (data.get? "items").bind Document.entries? = some items) (hbelow : WellFormed items) : WellFormed data
  /-- The properties of an object have texts for names, and definitions. -/
  | object {data : Entries} (htype : data.HasType "object") (hrequired : data.ListsRequired)
    (hproperties : data.MapsProperties) (hnames : ∀ entry ∈ data.definitions, entry.1.text?.isSome)
    (hmappings : ∀ entry ∈ data.definitions, entry.2.entries?.isSome)
    (hbelow : ∀ entry ∈ data.definitions, ∀ below, entry.2.entries? = some below → WellFormed below) : WellFormed data

/-- An entry that defines a property. -/
def DefinesProperty (entry : Document × Document) : Prop :=
  entry.1.text?.isSome ∧ ∃ below, entry.2.entries? = some below ∧ below.WellFormed

/-- What is wrong with a definition at a path: the first fault in the order in which it is read. Properties before the
one with the fault are defined; nothing is said about what comes after. -/
inductive FirstFault : (String → ItemError) → String → Entries → ItemError → Prop where
  /-- There is no type. -/
  | untyped {missing : String → ItemError} {path : String} {data : Entries} (htype : data.get? "type" = none) :
    FirstFault missing path data (missing path)
  /-- There is a type, but it has no token. -/
  | unsupported {missing : String → ItemError} {path : String} {data : Entries} {raw : Document}
    (htype : data.get? "type" = some raw) (hraw : ∀ token, ¬ raw.HasToken token) :
    FirstFault missing path data (.unsupportedType path raw)
  /-- An array does not have a mapping for its items. -/
  | noItems {missing : String → ItemError} {path : String} {data : Entries} (htype : data.HasType "array")
    (hitems : (data.get? "items").bind Document.entries? = none) : FirstFault missing path data (.arrayWithoutItems path)
  /-- The fault is in the items of an array, at the same path. -/
  | items {missing : String → ItemError} {path : String} {data items : Entries} {e : ItemError}
    (htype : data.HasType "array") (hitems : (data.get? "items").bind Document.entries? = some items)
    (hfault : FirstFault .itemsWithoutType path items e) : FirstFault missing path data e
  /-- The required names of an object are no list of texts. -/
  | required {missing : String → ItemError} {path : String} {data : Entries} (htype : data.HasType "object")
    (hrequired : ¬ data.ListsRequired) : FirstFault missing path data (.badRequired path)
  /-- The properties of an object are no mapping. -/
  | shape {missing : String → ItemError} {path : String} {data : Entries} (htype : data.HasType "object")
    (hrequired : data.ListsRequired) (hproperties : ¬ data.MapsProperties) :
    FirstFault missing path data (.badPropertiesShape path)
  /-- The name of a property is no text. -/
  | name {missing : String → ItemError} {path : String} {data before after : Entries} {key value : Document}
    (htype : data.HasType "object") (hrequired : data.ListsRequired)
    (hsplit : data.definitions = before ++ (key, value) :: after) (hbefore : ∀ entry ∈ before, DefinesProperty entry)
    (hkey : key.text? = none) : FirstFault missing path data (.badPropertyName path)
  /-- The definition of a property is no mapping. -/
  | definition {missing : String → ItemError} {path name : String} {data before after : Entries} {key value : Document}
    (htype : data.HasType "object") (hrequired : data.ListsRequired)
    (hsplit : data.definitions = before ++ (key, value) :: after) (hbefore : ∀ entry ∈ before, DefinesProperty entry)
    (hkey : key.text? = some name) (hvalue : value.entries? = none) :
    FirstFault missing path data (.badPropertyDefinition path name)
  /-- The fault is in the definition of a property, at the path through its name. -/
  | property {missing : String → ItemError} {path name : String} {data before after below : Entries}
    {key value : Document} {e : ItemError} (htype : data.HasType "object") (hrequired : data.ListsRequired)
    (hsplit : data.definitions = before ++ (key, value) :: after) (hbefore : ∀ entry ∈ before, DefinesProperty entry)
    (hkey : key.text? = some name) (hvalue : value.entries? = some below)
    (hfault : FirstFault .missingType (Naming.join path name) below e) : FirstFault missing path data e

/-- If there are definitions of properties, then the properties are a mapping. -/
theorem mapsProperties_of_definitions_ne_nil (h : data.definitions ≠ []) : data.MapsProperties := by
  intro raw hraw
  rw [definitions, hraw, Option.bind_some] at h
  cases hentries : raw.entries? with
  | none => exact absurd (by rw [hentries, Option.getD_none]) h
  | some entries => rfl

/-- The definition of a property is smaller than the definition that it is in. -/
theorem sizeOf_below_lt {entry : Document × Document} (hentry : entry ∈ data.definitions)
    (hbelow : entry.2.entries? = some below) : sizeOf below < sizeOf data := by
  rw [definitions] at hentry
  cases hproperties : (data.get? "properties").bind Document.entries? with
  | none =>
    rw [hproperties] at hentry
    exact absurd hentry List.not_mem_nil
  | some entries =>
    rw [hproperties, Option.getD_some] at hentry
    obtain ⟨raw, hraw, hentries⟩ := Option.bind_eq_some_iff.mp hproperties
    have hentry' := List.sizeOf_lt_of_mem hentry
    have hraw' := sizeOf_get?_lt hraw
    have hentries' := Document.sizeOf_entries?_lt hentries
    have hbelow' := Document.sizeOf_entries?_lt hbelow
    obtain ⟨key, value⟩ := entry
    simp only [Prod.mk.sizeOf_spec] at hentry'
    simp only at hbelow'
    omega

end Entries

/-! ### Reading by types -/

theorem TypeToken.ofText_scalar (harray : token ≠ "array") (hobject : token ≠ "object") :
    ∃ kind, ofText token = .scalar kind := by
  unfold ofText
  split
  · exact absurd rfl harray
  · exact absurd rfl hobject
  all_goals exact ⟨_, rfl⟩

namespace Shape

/-- Read the item of a definition. What is reported if it has no type depends on where it stands. -/
def readItem (missing : String → ItemError) (ctx : Context) (data : Entries) : Except ItemError Shape :=
  match data.get? "type" with
  | none => .error (missing ctx.path)
  | some raw =>
    match TypeClass.ofDocument? raw with
    | none => .error (.unsupportedType ctx.path raw)
    | some type => parseItem ctx type data

theorem parseField_eq_map_readItem (ctx : Context) (name : String) (data : Entries) :
    parseField ctx name data = (readItem .missingType (ctx.below name data) data).map fun shape =>
      (fieldOf ctx (ctx.below name data) name, shape) := by
  rw [parseField, readItem]
  cases data.get? "type" with
  | none => rfl
  | some raw =>
    simp only
    cases TypeClass.ofDocument? raw <;> rfl

theorem exists_readItem_eq (htype : data.HasType token) :
    ∃ type, type.token = .ofText token ∧ ∀ missing ctx, readItem missing ctx data = parseItem ctx type data := by
  obtain ⟨raw, hraw, htoken⟩ := htype
  obtain ⟨type, hclass, htype⟩ := htoken.exists_type
  exact ⟨type, htype, fun missing ctx => by rw [readItem, hraw]; simp only [hclass]⟩

theorem exists_readItem_scalar (htype : data.HasType token) (harray : token ≠ "array") (hobject : token ≠ "object")
    (missing : String → ItemError) (ctx : Context) : ∃ s, readItem missing ctx data = .ok (.scalar s) := by
  obtain ⟨type, htoken, hread⟩ := exists_readItem_eq htype
  obtain ⟨kind, hkind⟩ := TypeToken.ofText_scalar harray hobject
  refine ⟨scalarOf ctx kind type.nullable data, ?_⟩
  rw [hread, parseItem, htoken, hkind]

/-- An array is read like its items, where other faults are reported if there is no type. -/
theorem readItem_array (htype : data.HasType "array") (missing : String → ItemError) (ctx : Context) :
    readItem missing ctx data =
      match (data.get? "items").bind Document.entries? with
      | none => .error (.arrayWithoutItems ctx.path)
      | some items => (readItem .itemsWithoutType ctx items).map .array := by
  obtain ⟨type, htoken, hread⟩ := exists_readItem_eq htype
  rw [hread, parseItem_array htoken]
  cases (data.get? "items").bind Document.entries? with
  | none => rfl
  | some items =>
    simp only [readItem]
    cases items.get? "type" with
    | none => rfl
    | some raw =>
      simp only
      cases TypeClass.ofDocument? raw <;> rfl

theorem isSome_requiredNames?_iff : (requiredNames? data).isSome ↔ data.ListsRequired := by
  rw [requiredNames?, Entries.ListsRequired]
  cases data.get? "required" with
  | none => simp
  | some raw => simp [Document.isSome_textList?_iff]

/-- An object is read entry by entry if its required names and its properties have the right shape. -/
theorem exists_readItem_object (htype : data.HasType "object") (hrequired : data.ListsRequired)
    (hproperties : data.MapsProperties) (missing : String → ItemError) (ctx : Context) :
    ∃ required, readItem missing ctx data =
      (data.definitions.mapM (parseEntry ctx required)).map (.object ctx.path (keptNames ctx required)) := by
  obtain ⟨type, htoken, hread⟩ := exists_readItem_eq htype
  obtain ⟨required, hnames⟩ := Option.isSome_iff_exists.mp (isSome_requiredNames?_iff.mpr hrequired)
  refine ⟨required, ?_⟩
  rw [hread, parseItem_object htoken, Entries.definitions]
  simp only [hnames]
  cases hraw : data.get? "properties" with
  | none => simp [Except.map, pure, Except.pure]
  | some raw =>
    obtain ⟨entries, hentries⟩ := Option.isSome_iff_exists.mp (hproperties raw hraw)
    simp only [Option.bind_some, hentries, Option.getD_some, parseFields_eq_mapM]

theorem readItem_of_not_listsRequired (htype : data.HasType "object") (hrequired : ¬ data.ListsRequired)
    (missing : String → ItemError) (ctx : Context) : readItem missing ctx data = .error (.badRequired ctx.path) := by
  obtain ⟨type, htoken, hread⟩ := exists_readItem_eq htype
  have hnames : requiredNames? data = none := by
    rw [← Option.not_isSome_iff_eq_none, isSome_requiredNames?_iff]
    exact hrequired
  rw [hread, parseItem_object htoken]
  simp only [hnames]

theorem readItem_of_not_mapsProperties (htype : data.HasType "object") (hrequired : data.ListsRequired)
    (hproperties : ¬ data.MapsProperties) (missing : String → ItemError) (ctx : Context) :
    readItem missing ctx data = .error (.badPropertiesShape ctx.path) := by
  obtain ⟨type, htoken, hread⟩ := exists_readItem_eq htype
  obtain ⟨required, hnames⟩ := Option.isSome_iff_exists.mp (isSome_requiredNames?_iff.mpr hrequired)
  rw [Entries.MapsProperties] at hproperties
  push Not at hproperties
  obtain ⟨raw, hraw, hentries⟩ := hproperties
  rw [hread, parseItem_object htoken]
  simp only [hnames, hraw, Option.not_isSome_iff_eq_none.mp hentries]

/-! ### The reader follows the grammar -/

theorem parseEntry_eq_map_readItem (hkey : entry.1.text? = some name) (hvalue : entry.2.entries? = some below)
    (ctx : Context) (required : List String) :
    parseEntry ctx required entry =
      (readItem .missingType ((ctx.property required name).below name below) below).map fun shape =>
        (fieldOf (ctx.property required name) ((ctx.property required name).below name below) name, shape) := by
  rw [parseEntry, ← parseField_eq_map_readItem]
  simp only [hkey, hvalue]

/-- An entry is read if its definition is. -/
theorem exists_parseEntry (h : Entries.DefinesProperty entry)
    (hbelow : ∀ below, entry.2.entries? = some below → below.WellFormed →
      ∀ missing ctx, ∃ shape, readItem missing ctx below = .ok shape) (ctx : Context) (required : List String) :
    ∃ field, parseEntry ctx required entry = .ok field := by
  obtain ⟨hname, below, hentries, hwell⟩ := h
  obtain ⟨name, hname⟩ := Option.isSome_iff_exists.mp hname
  obtain ⟨shape, hshape⟩ := hbelow below hentries hwell .missingType ((ctx.property required name).below name below)
  exact ⟨_, by rw [parseEntry_eq_map_readItem hname hentries, hshape]; rfl⟩

/-- What is well formed is read, wherever it stands. -/
theorem exists_readItem (h : data.WellFormed) : ∀ missing ctx, ∃ shape, readItem missing ctx data = .ok shape := by
  induction h with
  | scalar htype harray hobject =>
    intro missing ctx
    obtain ⟨s, hs⟩ := exists_readItem_scalar htype harray hobject missing ctx
    exact ⟨.scalar s, hs⟩
  | array htype hitems _ ih =>
    intro missing ctx
    obtain ⟨shape, hshape⟩ := ih .itemsWithoutType ctx
    exact ⟨.array shape, by rw [readItem_array htype, hitems]; simp only [hshape]; rfl⟩
  | @object data htype hrequired hproperties hnames hmappings hbelow ih =>
    intro missing ctx
    obtain ⟨required, hread⟩ := exists_readItem_object htype hrequired hproperties missing ctx
    have hentries : ∀ entry ∈ data.definitions, ∃ field, parseEntry ctx required entry = .ok field := by
      intro entry hentry
      obtain ⟨below, hentries⟩ := Option.isSome_iff_exists.mp (hmappings entry hentry)
      refine exists_parseEntry ⟨hnames entry hentry, below, hentries, hbelow entry hentry below hentries⟩ ?_ ctx required
      exact fun below hentries _ => ih entry hentry below hentries
    obtain ⟨fields, hfields⟩ := exists_mapM_eq_ok_iff.mpr hentries
    exact ⟨_, by rw [hread, hfields]; rfl⟩

/-- An object is refused for the first entry that is refused. -/
theorem readItem_of_parseEntry {before after : Entries} (htype : data.HasType "object") (hrequired : data.ListsRequired)
    (hsplit : data.definitions = before ++ entry :: after) (hbefore : ∀ entry ∈ before, Entries.DefinesProperty entry)
    (hentry : ∀ required, parseEntry ctx required entry = .error e) (missing : String → ItemError) :
    readItem missing ctx data = .error e := by
  have hproperties : data.MapsProperties := Entries.mapsProperties_of_definitions_ne_nil (by simp [hsplit])
  obtain ⟨required, hread⟩ := exists_readItem_object htype hrequired hproperties missing ctx
  have hok : ∀ entry ∈ before, ∃ field, parseEntry ctx required entry = .ok field := fun entry hentry =>
    exists_parseEntry (hbefore entry hentry) (fun _ _ hwell => exists_readItem hwell) ctx required
  rw [hread, map_eq_error_iff, mapM_eq_error_iff]
  exact ⟨before, entry, after, hsplit, hok, hentry required⟩

/-- The first fault is reported. -/
theorem readItem_of_firstFault (h : data.FirstFault missing path e) :
    ∀ ctx : Context, ctx.path = path → readItem missing ctx data = .error e := by
  induction h with
  | untyped htype =>
    rintro ctx rfl
    rw [readItem, htype]
  | @unsupported missing path data raw htype hraw =>
    rintro ctx rfl
    have hclass : TypeClass.ofDocument? raw = none := by
      rw [Option.eq_none_iff_forall_ne_some]
      intro type hclass
      obtain ⟨token, htoken, -⟩ := Document.exists_hasToken hclass
      exact hraw token htoken
    rw [readItem, htype]
    simp only [hclass]
  | noItems htype hitems =>
    rintro ctx rfl
    rw [readItem_array htype, hitems]
  | items htype hitems _ ih =>
    rintro ctx rfl
    rw [readItem_array htype, hitems]
    simp only [ih ctx rfl]
    rfl
  | required htype hrequired =>
    rintro ctx rfl
    exact readItem_of_not_listsRequired htype hrequired _ ctx
  | shape htype hrequired hproperties =>
    rintro ctx rfl
    exact readItem_of_not_mapsProperties htype hrequired hproperties _ ctx
  | name htype hrequired hsplit hbefore hkey =>
    rintro ctx rfl
    exact readItem_of_parseEntry htype hrequired hsplit hbefore (fun required => by simp [parseEntry, hkey]) _
  | definition htype hrequired hsplit hbefore hkey hvalue =>
    rintro ctx rfl
    exact readItem_of_parseEntry htype hrequired hsplit hbefore (fun required => by simp [parseEntry, hkey, hvalue]) _
  | @property missing path name data before after below key value e htype hrequired hsplit hbefore hkey hvalue _ ih =>
    rintro ctx rfl
    refine readItem_of_parseEntry htype hrequired hsplit hbefore (fun required => ?_) _
    rw [parseEntry_eq_map_readItem hkey hvalue, ih ((ctx.property required name).below name below) rfl]
    rfl

/-- A definition is well formed where it is read, and where it is refused its first fault is reported. -/
def FollowsGrammar (data : Entries) : Prop :=
  ∀ (missing : String → ItemError) (ctx : Context),
    (∃ shape, readItem missing ctx data = .ok shape ∧ data.WellFormed) ∨
      ∃ e, readItem missing ctx data = .error e ∧ data.FirstFault missing ctx.path e

/-- An entry is read, and then it defines a property, or it is refused for its name, for its definition not being one, or
for what is wrong with its definition. -/
theorem parseEntry_cases (hbelow : ∀ below, entry.2.entries? = some below → FollowsGrammar below) (ctx : Context)
    (required : List String) :
    (∃ field, parseEntry ctx required entry = .ok field ∧ Entries.DefinesProperty entry) ∨
      ∃ e, parseEntry ctx required entry = .error e ∧
        (entry.1.text? = none ∧ e = .badPropertyName ctx.path ∨ ∃ name, entry.1.text? = some name ∧
          (entry.2.entries? = none ∧ e = .badPropertyDefinition ctx.path name ∨
            ∃ below, entry.2.entries? = some below ∧
              below.FirstFault .missingType (Naming.join ctx.path name) e)) := by
  cases hkey : entry.1.text? with
  | none => exact .inr ⟨_, by rw [parseEntry]; simp only [hkey], .inl ⟨rfl, rfl⟩⟩
  | some name =>
    cases hvalue : entry.2.entries? with
    | none => exact .inr ⟨_, by rw [parseEntry]; simp only [hkey, hvalue], .inr ⟨name, rfl, .inl ⟨rfl, rfl⟩⟩⟩
    | some below =>
      rw [parseEntry_eq_map_readItem hkey hvalue]
      rcases hbelow below hvalue .missingType ((ctx.property required name).below name below) with
        ⟨shape, hshape, hwell⟩ | ⟨e, he, hfault⟩
      · exact .inl ⟨_, by rw [hshape]; rfl, Option.isSome_of_eq_some hkey, below, hvalue, hwell⟩
      · exact .inr ⟨e, by rw [he]; rfl, .inr ⟨name, rfl, .inr ⟨below, rfl, hfault⟩⟩⟩

theorem followsGrammar_array (htype : data.HasType "array")
    (hbelow : ∀ items, (data.get? "items").bind Document.entries? = some items → FollowsGrammar items) :
    FollowsGrammar data := by
  intro missing ctx
  rw [readItem_array htype]
  cases hitems : (data.get? "items").bind Document.entries? with
  | none => exact .inr ⟨_, rfl, .noItems htype hitems⟩
  | some items =>
    rcases hbelow items hitems .itemsWithoutType ctx with ⟨shape, hshape, hwell⟩ | ⟨e, he, hfault⟩
    · exact .inl ⟨_, by simp only [hshape]; rfl, .array htype hitems hwell⟩
    · exact .inr ⟨e, by simp only [he]; rfl, .items htype hitems hfault⟩

theorem followsGrammar_object (htype : data.HasType "object")
    (hbelow : ∀ entry ∈ data.definitions, ∀ below, entry.2.entries? = some below → FollowsGrammar below) :
    FollowsGrammar data := by
  intro missing ctx
  by_cases hrequired : data.ListsRequired
  swap
  · exact .inr ⟨_, readItem_of_not_listsRequired htype hrequired missing ctx, .required htype hrequired⟩
  by_cases hproperties : data.MapsProperties
  swap
  · exact .inr ⟨_, readItem_of_not_mapsProperties htype hrequired hproperties missing ctx,
      .shape htype hrequired hproperties⟩
  obtain ⟨required, hread⟩ := exists_readItem_object htype hrequired hproperties missing ctx
  have hcases : ∀ entry ∈ data.definitions, _ := fun entry hentry => parseEntry_cases (hbelow entry hentry) ctx required
  have hdefines : ∀ entry ∈ data.definitions, (∃ field, parseEntry ctx required entry = .ok field) →
      Entries.DefinesProperty entry := by
    rintro entry hentry ⟨field, hfield⟩
    rcases hcases entry hentry with ⟨-, -, hdefines⟩ | ⟨e, he, -⟩
    · exact hdefines
    · exact nomatch hfield.symm.trans he
  rw [hread]
  cases hfields : data.definitions.mapM (parseEntry ctx required) with
  | ok fields =>
    have hall : ∀ entry ∈ data.definitions, Entries.DefinesProperty entry := fun entry hentry =>
      hdefines entry hentry (exists_mapM_eq_ok_iff.mp ⟨fields, hfields⟩ entry hentry)
    refine .inl ⟨_, rfl, .object htype hrequired hproperties (fun entry hentry => (hall entry hentry).1)
      (fun entry hentry => ?_) fun entry hentry below hvalue => ?_⟩
    · obtain ⟨-, below, hvalue, -⟩ := hall entry hentry
      exact Option.isSome_of_eq_some hvalue
    · obtain ⟨-, below', hvalue', hwell⟩ := hall entry hentry
      exact Option.some.inj (hvalue'.symm.trans hvalue) ▸ hwell
  | error e =>
    obtain ⟨before, ⟨key, value⟩, after, hsplit, hbefore, hfault⟩ := mapM_eq_error_iff.mp hfields
    have hall : ∀ entry ∈ before, Entries.DefinesProperty entry := fun entry hentry =>
      hdefines entry (by simp [hsplit, hentry]) (hbefore entry hentry)
    refine .inr ⟨e, rfl, ?_⟩
    rcases hcases (key, value) (by simp [hsplit]) with ⟨field, hfield, -⟩ | ⟨e', he', hcause⟩
    · exact nomatch hfault.symm.trans hfield
    · obtain rfl := Except.error.inj (hfault.symm.trans he')
      rcases hcause with ⟨hkey, rfl⟩ | ⟨name, hkey, ⟨hvalue, rfl⟩ | ⟨below, hvalue, hfault⟩⟩
      · exact .name htype hrequired hsplit hall hkey
      · exact .definition htype hrequired hsplit hall hkey hvalue
      · exact .property htype hrequired hsplit hall hkey hvalue hfault

/-- **A definition is read, and then it is well formed, or its first fault is reported.** -/
theorem followsGrammar (data : Entries) : FollowsGrammar data := by
  -- The induction is on the size of the definition; the items and the properties in it are smaller.
  induction hn : sizeOf data using Nat.strong_induction_on generalizing data with
  | _ n ih =>
    cases hraw : data.get? "type" with
    | none => exact fun missing ctx => .inr ⟨_, by rw [readItem, hraw], .untyped hraw⟩
    | some raw =>
      cases hclass : TypeClass.ofDocument? raw with
      | none =>
        have hnone : ∀ token, ¬ raw.HasToken token := fun token htoken =>
          htoken.exists_type.elim fun type htype => nomatch hclass.symm.trans htype.1
        exact fun missing ctx => .inr ⟨_, by rw [readItem, hraw]; simp only [hclass], .unsupported hraw hnone⟩
      | some type =>
        obtain ⟨token, htoken, -⟩ := Document.exists_hasToken hclass
        have htype : data.HasType token := ⟨raw, hraw, htoken⟩
        by_cases harray : token = "array"
        · refine followsGrammar_array (harray ▸ htype) fun items hitems => ih _ (hn ▸ ?_) items rfl
          obtain ⟨rawItems, hget, hentries⟩ := Option.bind_eq_some_iff.mp hitems
          exact (Document.sizeOf_entries?_lt hentries).trans (Entries.sizeOf_get?_lt hget)
        by_cases hobject : token = "object"
        · exact followsGrammar_object (hobject ▸ htype) fun entry hentry below hvalue =>
            ih _ (hn ▸ Entries.sizeOf_below_lt hentry hvalue) below rfl
        · intro missing ctx
          obtain ⟨s, hs⟩ := exists_readItem_scalar htype harray hobject missing ctx
          exact .inl ⟨_, hs, .scalar htype harray hobject⟩

theorem exists_readItem_iff : (∃ shape, readItem missing ctx data = .ok shape) ↔ data.WellFormed := by
  refine ⟨fun ⟨shape, hshape⟩ => ?_, fun h => exists_readItem h missing ctx⟩
  rcases followsGrammar data missing ctx with ⟨-, -, hwell⟩ | ⟨e, he, -⟩
  · exact hwell
  · exact nomatch hshape.symm.trans he

theorem readItem_eq_error_iff : readItem missing ctx data = .error e ↔ data.FirstFault missing ctx.path e := by
  refine ⟨fun h => ?_, fun h => readItem_of_firstFault h ctx rfl⟩
  rcases followsGrammar data missing ctx with ⟨shape, hshape, -⟩ | ⟨e', he', hfault⟩
  · exact nomatch h.symm.trans hshape
  · exact Except.error.inj (h.symm.trans he') ▸ hfault

/-- What is read is an object exactly if the type says so. -/
theorem isObject_iff (h : readItem missing ctx data = .ok shape) : shape.isObject = true ↔ data.HasType "object" := by
  have hwell : data.WellFormed := exists_readItem_iff.mp ⟨shape, h⟩
  constructor
  · intro hobject
    cases hwell with
    | scalar htype harray hother =>
      obtain ⟨s, hs⟩ := exists_readItem_scalar htype harray hother missing ctx
      obtain rfl := Except.ok.inj (h.symm.trans hs)
      exact nomatch hobject
    | array htype hitems _ =>
      rw [readItem_array htype, hitems] at h
      obtain ⟨element, -, rfl⟩ := map_eq_ok_iff.mp h
      exact nomatch hobject
    | object htype => exact htype
  · intro htype
    by_cases hrequired : data.ListsRequired
    swap
    · exact nomatch h.symm.trans (readItem_of_not_listsRequired htype hrequired missing ctx)
    by_cases hproperties : data.MapsProperties
    swap
    · exact nomatch h.symm.trans (readItem_of_not_mapsProperties htype hrequired hproperties missing ctx)
    obtain ⟨required, hread⟩ := exists_readItem_object htype hrequired hproperties missing ctx
    obtain ⟨fields, -, rfl⟩ := map_eq_ok_iff.mp (hread.symm.trans h)
    rfl

end Shape

/-! ### Properties -/

namespace Graph

variable {g : Graph}

theorem parseProperty_eq (g : Graph) (ctx : Context) (name : String) (data : Entries) :
    g.parseProperty ctx name data = (Shape.readItem .missingType (ctx.below name data) data).map fun shape =>
      g.plantProperty (Shape.fieldOf ctx (ctx.below name data) name) shape := by
  rw [parseProperty, Shape.parseField_eq_map_readItem]
  cases Shape.readItem .missingType (ctx.below name data) data <;> rfl

theorem exists_parseProperty_iff : (∃ next, g.parseProperty ctx name data = .ok next) ↔ data.WellFormed := by
  rw [parseProperty_eq, ← Shape.exists_readItem_iff]
  simp only [map_eq_ok_iff]
  exact ⟨fun ⟨_, shape, h, _⟩ => ⟨shape, h⟩, fun ⟨shape, h⟩ => ⟨_, shape, h, rfl⟩⟩

theorem parseProperty_eq_error_iff :
    g.parseProperty ctx name data = .error e ↔ data.FirstFault .missingType (Naming.join ctx.path name) e := by
  rw [parseProperty_eq, map_eq_error_iff, Shape.readItem_eq_error_iff]
  rfl

theorem isObject_held_iff {next : Graph × PropertyId} (hparse : g.parseProperty ctx name data = .ok next) :
    (next.1.held next.2).isObject = true ↔ data.HasType "object" := by
  rw [parseProperty_eq] at hparse
  obtain ⟨shape, hshape, rfl⟩ := map_eq_ok_iff.mp hparse
  rw [← Shape.isObject_iff hshape, held_plantProperty]
  cases shape with
  | scalar s => rw [plant, item_addItem_self]; rfl
  | array element => rw [plant, item_addItem_self]; rfl
  | object typeName required fields => rw [plant, item_addItem_self]; rfl

end Graph

end Schemata
