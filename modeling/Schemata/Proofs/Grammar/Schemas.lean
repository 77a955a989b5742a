import Schemata.Proofs.Grammar.Definitions

/-!
# The grammar of schemas

A schema is admitted if it has an identifier, bases that are texts, and a body that is empty or defines an object, and if
that object does not have the property that is to refer to the parent (`Schema.Admitted`). What is wrong with any other
schema is told by the first of these that it misses (`Schema.Refused`). Parsing follows this grammar
(`Schema.parse_follows_grammar`): it gives a result exactly for what is admitted, and the error is what is wrong.
-/

namespace Schemata

variable {data body : Entries}

namespace Schema

variable {g : Graph} {id parent : String}

/-- The bases of a schema are a list of texts, if there are any. -/
def ListsBases (data : Entries) : Prop :=
  ∀ raw, data.get? "extends" = some raw → raw.IsTextList

/-- The body of a schema, if it has one. -/
def bodyOf? (data : Entries) : Option Entries :=
  (data.get? "schema").bind Document.entries?

/-- A body that defines an object: it is empty, or a definition of one. -/
def DefinesObject (body : Entries) : Prop :=
  body = [] ∨ body.HasType "object" ∧ body.WellFormed

/-- A schema that can be read. -/
structure Admitted (data : Entries) : Prop where
  id : (idOf? data).isSome
  bases : ListsBases data
  body : ∃ body, bodyOf? data = some body ∧ DefinesObject body ∧
    ∀ parent, parentOf? data = some parent → parentProperty parent ∉ body.definedNames

/-- What is wrong with a schema that cannot be read. -/
inductive Refused (data : Entries) : SchemaError → Prop where
  /-- There is no identifier. -/
  | withoutId (hid : idOf? data = none) : Refused data .schemaWithoutId
  /-- The bases are no list of texts. -/
  | bases {id : String} (hid : idOf? data = some id) (hbases : ¬ ListsBases data) : Refused data (.badBaseList id)
  /-- There is no mapping for a body. -/
  | withoutBody {id : String} (hid : idOf? data = some id) (hbases : ListsBases data) (hbody : bodyOf? data = none) :
    Refused data (.schemaWithoutBody id)
  /-- Something is wrong with the body, which stands at the path of the identifier. -/
  | body {id : String} {body : Entries} {e : ItemError} (hid : idOf? data = some id) (hbases : ListsBases data)
    (hbody : bodyOf? data = some body) (hne : body ≠ []) (hfault : body.FirstFault .missingType id e) :
    Refused data (.invalid id e)
  /-- The body is the definition of something else than an object. -/
  | notObject {id : String} {body : Entries} (hid : idOf? data = some id) (hbases : ListsBases data)
    (hbody : bodyOf? data = some body) (hwell : body.WellFormed) (htype : ¬ body.HasType "object") :
    Refused data (.rootNotObject id)
  /-- The body defines the property that refers to the parent. -/
  | parent {id parent : String} {body : Entries} (hid : idOf? data = some id) (hbases : ListsBases data)
    (hbody : bodyOf? data = some body) (hobject : DefinesObject body) (hparent : parentOf? data = some parent)
    (hdefined : parentProperty parent ∈ body.definedNames) : Refused data (.parentCollision id parent)

/-- The definition in a body, which may be empty. -/
def fill (body : Entries) : Entries :=
  if body.isEmpty then definition "object" else body

theorem hasType_definition (token : String) : (definition token).HasType token :=
  ⟨.text token, by simp [definition, Entries.get?, Document.isKey], .text token⟩

theorem wellFormed_definition_object : (definition "object").WellFormed := by
  have hnone : ∀ name, name ≠ "type" → (definition "object").get? name = none := fun name hname => by
    simp [definition, Entries.get?, Document.isKey, hname.symm]
  have hdefinitions : (definition "object").definitions = [] := by
    rw [Entries.definitions, hnone _ (by decide)]
    rfl
  refine .object (hasType_definition "object") (fun raw hraw => ?_) (fun raw hraw => ?_) ?_ ?_ ?_
  · cases (hnone "required" (by decide)).symm.trans hraw
  · cases (hnone "properties" (by decide)).symm.trans hraw
  all_goals simp [hdefinitions]

theorem definedNames_fill (body : Entries) : (fill body).definedNames = body.definedNames := by
  rw [fill]
  split_ifs with hempty
  · rw [List.isEmpty_iff.mp hempty]
    rfl
  · rfl

theorem definesObject_iff : DefinesObject body ↔ (fill body).HasType "object" ∧ (fill body).WellFormed := by
  rw [DefinesObject, fill]
  cases body with
  | nil => simp [hasType_definition, wellFormed_definition_object]
  | cons entry rest => simp

theorem exists_basesOf_iff : (∃ bases, basesOf id data = .ok bases) ↔ ListsBases data := by
  rw [basesOf, ListsBases]
  cases data.get? "extends" with
  | none => simp
  | some raw =>
    simp only [Option.some.injEq, forall_eq', ← Document.isSome_textList?_iff]
    cases raw.textList? <;> simp

theorem basesOf_of_not_listsBases (hbases : ¬ ListsBases data) : basesOf id data = .error (.badBaseList id) := by
  cases hcases : basesOf id data with
  | ok bases => exact absurd (exists_basesOf_iff.mp ⟨bases, hcases⟩) hbases
  | error e =>
    rw [basesOf] at hcases
    split at hcases
    · cases hcases
    · split at hcases <;> cases hcases
      rfl

/-! ### The steps of reading a schema -/

theorem read_of_withoutId (hid : idOf? data = none) (g : Graph) : read g data = .error .schemaWithoutId := by
  rw [idOf?] at hid
  rw [read, hid]

theorem read_eq_bind (hid : idOf? data = some id) (g : Graph) : read g data = (do
    let bases ← basesOf id data
    let body ← bodyOf id data
    let (h, root) ← (g.parseProperty rootContext id body).mapError (.invalid id)
    if !(h.held root).isObject then .error (.rootNotObject id)
    let h ← addParent h id root (parentOf? data)
    return (h, { id, parent := parentOf? data, bases, root })) := by
  rw [idOf?] at hid
  rw [read, hid]
  rfl

/-- With an identifier, bases and a body, it is the body that is read. -/
theorem exists_read_eq (hid : idOf? data = some id) (hbases : ListsBases data) (hbody : bodyOf? data = some body)
    (g : Graph) : ∃ bases, read g data = (do
      let (h, root) ← (g.parseProperty rootContext id (fill body)).mapError (.invalid id)
      if !(h.held root).isObject then .error (.rootNotObject id)
      let h ← addParent h id root (parentOf? data)
      return (h, { id, parent := parentOf? data, bases, root })) := by
  obtain ⟨bases, hbases⟩ := exists_basesOf_iff.mpr hbases
  have hfill : bodyOf id data = .ok (fill body) := by
    rw [bodyOf?] at hbody
    rw [bodyOf, hbody]
    rfl
  exact ⟨bases, by rw [read_eq_bind hid, hbases, hfill]; rfl⟩

/-- A parent is refused exactly if the body defines the property that would refer to it. -/
theorem addParent_eq_error_iff_of_parseProperty {next : Graph × PropertyId} {e : SchemaError}
    (hparse : g.parseProperty rootContext id body = .ok next) (hobject : (next.1.held next.2).isObject = true) :
    addParent next.1 id next.2 (some parent) = .error e ↔
      parentProperty parent ∈ body.definedNames ∧ e = .parentCollision id parent := by
  obtain ⟨o, ho⟩ := Graph.exists_object?_of_isObject hobject
  obtain ⟨hplanted, hloose, -⟩ := planted_parseProperty (.refl g) hparse
  have hitem := hplanted.new_of_link hloose.new (Graph.link_property_iff.mpr rfl)
  have hlt : ∀ p ∈ o.properties.elements, p.index < next.1.properties.size := fun p hp =>
    (hplanted.new_of_link hitem (Graph.link_item_property_iff.mpr ⟨o, ho, hp⟩)).2
  rw [addParent_eq_error_iff hloose.new.2 ho hlt, Graph.isSome_get?_iff_of_parseProperty hparse ho]

/-- What defines an object is read as one. -/
theorem DefinesObject.exists_next (hobject : DefinesObject body) (g : Graph) (id : String) :
    ∃ next, g.parseProperty rootContext id (fill body) = .ok next ∧ (next.1.held next.2).isObject = true := by
  obtain ⟨htype, hwell⟩ := definesObject_iff.mp hobject
  obtain ⟨next, hparse⟩ := Graph.exists_parseProperty_iff.mpr hwell
  exact ⟨next, hparse, (Graph.isObject_held_iff hparse).mpr htype⟩

theorem fill_of_ne_nil (hne : body ≠ []) : fill body = body := by
  rw [fill, if_neg (by simpa using hne)]

theorem ne_nil_of_wellFormed (hwell : body.WellFormed) : body ≠ [] := by
  rintro rfl
  obtain ⟨token, raw, hraw, -⟩ : ∃ token, Entries.HasType [] token := by
    cases hwell with
    | scalar htype => exact ⟨_, htype⟩
    | array htype => exact ⟨_, htype⟩
    | object htype => exact ⟨_, htype⟩
  exact nomatch hraw

/-- What is admitted is read. -/
theorem Admitted.exists_read (h : Admitted data) (g : Graph) : ∃ next, read g data = .ok next := by
  obtain ⟨hid, hbases, body, hbody, hobject, hparent⟩ := h
  obtain ⟨id, hid⟩ := Option.isSome_iff_exists.mp hid
  obtain ⟨bases, hread⟩ := exists_read_eq hid hbases hbody g
  obtain ⟨next, hparse, hheld⟩ := hobject.exists_next g id
  obtain ⟨h, hadd⟩ : ∃ h, addParent next.1 id next.2 (parentOf? data) = .ok h := by
    cases hgiven : parentOf? data with
    | none => exact ⟨_, rfl⟩
    | some parent =>
      cases hadd : addParent next.1 id next.2 (some parent) with
      | ok h => exact ⟨h, rfl⟩
      | error e =>
        obtain ⟨hdefined, -⟩ := (addParent_eq_error_iff_of_parseProperty hparse hheld).mp hadd
        exact absurd (definedNames_fill body ▸ hdefined) (hparent parent hgiven)
  exact ⟨_, by rw [hread, hparse]; simp [Except.mapError, bind, Except.bind, hheld, hadd]; rfl⟩

/-- What is wrong is reported. -/
theorem Refused.read_eq {e : SchemaError} (h : Refused data e) (g : Graph) : read g data = .error e := by
  cases h with
  | withoutId hid => exact read_of_withoutId hid g
  | bases hid hbases =>
    rw [read_eq_bind hid, basesOf_of_not_listsBases hbases]
    rfl
  | @withoutBody id hid hbases hbody =>
    obtain ⟨bases, hbases⟩ := exists_basesOf_iff.mpr hbases
    have hrefused : bodyOf id data = .error (.schemaWithoutBody id) := by
      rw [bodyOf?] at hbody
      rw [bodyOf, hbody]
    rw [read_eq_bind hid, hbases, hrefused]
    rfl
  | @body id body e hid hbases hbody hne hfault =>
    obtain ⟨bases, hread⟩ := exists_read_eq hid hbases hbody g
    have hparse : g.parseProperty rootContext id (fill body) = .error e := by
      rw [fill_of_ne_nil hne]
      exact Graph.parseProperty_eq_error_iff.mpr hfault
    rw [hread, hparse]
    rfl
  | @notObject id body hid hbases hbody hwell htype =>
    obtain ⟨bases, hread⟩ := exists_read_eq hid hbases hbody g
    obtain ⟨next, hparse⟩ : ∃ next, g.parseProperty rootContext id body = .ok next :=
      Graph.exists_parseProperty_iff.mpr hwell
    have hheld : (next.1.held next.2).isObject = false := by
      rw [Bool.eq_false_iff]
      exact fun hheld => htype ((Graph.isObject_held_iff hparse).mp hheld)
    rw [hread, fill_of_ne_nil (ne_nil_of_wellFormed hwell), hparse]
    simp [Except.mapError, bind, Except.bind, hheld]
  | @parent id parent body hid hbases hbody hobject hparent hdefined =>
    obtain ⟨bases, hread⟩ := exists_read_eq hid hbases hbody g
    obtain ⟨next, hparse, hheld⟩ := hobject.exists_next g id
    have hadd : addParent next.1 id next.2 (some parent) = .error (.parentCollision id parent) :=
      (addParent_eq_error_iff_of_parseProperty hparse hheld).mpr ⟨(definedNames_fill body).symm ▸ hdefined, rfl⟩
    rw [hread, hparse, hparent]
    simp [Except.mapError, bind, Except.bind, hheld, hadd]

/-- Something is wrong with what is not admitted. -/
theorem admitted_or_refused (data : Entries) : Admitted data ∨ ∃ e, Refused data e := by
  cases hid : idOf? data with
  | none => exact .inr ⟨_, .withoutId hid⟩
  | some id =>
    by_cases hbases : ListsBases data
    swap
    · exact .inr ⟨_, .bases hid hbases⟩
    cases hbody : bodyOf? data with
    | none => exact .inr ⟨_, .withoutBody hid hbases hbody⟩
    | some body =>
      have hobject : DefinesObject body ∨ ∃ e, Refused data e := by
        by_cases hne : body = []
        · exact .inl (.inl hne)
        rcases Shape.followsGrammar body .missingType { path := id } with ⟨-, -, hwell⟩ | ⟨e, -, hfault⟩
        · by_cases htype : body.HasType "object"
          · exact .inl (.inr ⟨htype, hwell⟩)
          · exact .inr ⟨_, .notObject hid hbases hbody hwell htype⟩
        · exact .inr ⟨_, .body hid hbases hbody hne hfault⟩
      refine hobject.elim (fun hobject => ?_) .inr
      by_cases hparent : ∃ parent, parentOf? data = some parent ∧ parentProperty parent ∈ body.definedNames
      · obtain ⟨parent, hparent, hdefined⟩ := hparent
        exact .inr ⟨_, .parent hid hbases hbody hobject hparent hdefined⟩
      · exact .inl ⟨Option.isSome_of_eq_some hid, hbases, body, hbody, hobject, fun parent hgiven hdefined =>
          hparent ⟨parent, hgiven, hdefined⟩⟩

/-- **Parsing follows the grammar**: there is a result exactly for what is admitted, and the error is the one thing that
is wrong with anything else. -/
theorem parse_follows_grammar (g : Graph) (data : Entries) :
    ((∃ next, parse g data = .ok next) ↔ Admitted data) ∧ ∀ e, parse g data = .error e ↔ Refused data e := by
  have hok : Admitted data → ∃ next, parse g data = .ok next := by
    intro h
    obtain ⟨next, hread⟩ := h.exists_read g
    exact ⟨_, parse_eq_of_read hread⟩
  have herror : ∀ e, Refused data e → parse g data = .error e := by
    intro e h
    rw [parse, h.read_eq g]
    rfl
  refine ⟨⟨?_, hok⟩, fun e => ⟨fun hparse => ?_, herror e⟩⟩
  · rintro ⟨next, hparse⟩
    refine (admitted_or_refused data).resolve_right ?_
    rintro ⟨e, h⟩
    cases hparse.symm.trans (herror e h)
  · rcases admitted_or_refused data with h | ⟨e', h⟩
    · obtain ⟨next, hnext⟩ := hok h
      cases hparse.symm.trans hnext
    · exact Except.error.inj (hparse.symm.trans (herror e' h)) ▸ h

end Schema

end Schemata
