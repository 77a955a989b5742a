import Schemata.Proofs.Invariance.Documents
import Schemata.Proofs.Reading

/-!
# Schemas in another order

From a reordered schema the same schema is read, over other nodes of another graph (`Schema.Alike`): the identifiers are
the same, the bases are the same in some order, and the nodes below the root properties are paired off by an isomorphism.
`Schema.parse_reordered` says so of one schema, and that one can be read if the other can, whatever the graphs are.

Schemas are read one after the other, each below a root property of its own (`Schema.Apart`). So lists of schemas in
another order are read to schemas that are alike one by one (`Schema.AlikeAll`), and all of their nodes together are
paired off by one isomorphism (`Schema.AlikeAll.isomorphism`).
-/

namespace Schemata

open Schemata.Graph (Isomorphism Paired Planted Loose New Grown Twin)
open Document (Role)

variable {b b' g g' h h' : Graph} {R : Node → Node → Prop} {x x' y : Node}

/-! ### One more leaf -/

namespace Graph

/-- The pairs of an isomorphism and those of one more leaf in both graphs. -/
def leafPairs (g g' : Graph) (R : Node → Node → Prop) (x x' : Node) : Prop :=
  R x x' ∨ (x = .property ⟨g.properties.size⟩ ∧ x' = .property ⟨g'.properties.size⟩) ∨
    (x = .item ⟨g.items.size⟩ ∧ x' = .item ⟨g'.items.size⟩)

/-- A leaf is added to both graphs. -/
theorem Isomorphism.addLeaf (hiso : Isomorphism g g' R) (field : Field) (scalar : Scalar) :
    Isomorphism (g.addLeaf field scalar).1 (g'.addLeaf field scalar).1 (leafPairs g g' R) := by
  have hgrown := hiso.grown (g.grown_addLeaf field scalar) (g'.grown_addLeaf field scalar)
  have hproperty : ∀ g : Graph, (g.addLeaf field scalar).1.property ⟨g.properties.size⟩ =
      { toField := field, item := ⟨g.items.size⟩ } := fun g => property_addProperty_self _ _
  have hitem : ∀ g : Graph, (g.addLeaf field scalar).1.item ⟨g.items.size⟩ = .scalar scalar :=
    fun g => item_addItem_self g _
  have hlt : ∀ g : Graph, (g.addLeaf field scalar).1.Present (.property ⟨g.properties.size⟩) ∧
      (g.addLeaf field scalar).1.Present (.item ⟨g.items.size⟩) := by
    intro g
    simp [Present, Graph.addLeaf]
  have hnot : ∀ g : Graph, ¬ g.Present (.property ⟨g.properties.size⟩) ∧ ¬ g.Present (.item ⟨g.items.size⟩) :=
    fun g => ⟨Nat.lt_irrefl _, Nat.lt_irrefl _⟩
  refine ⟨?_, ?_, ?_⟩
  · rintro x x' (hx | ⟨rfl, rfl⟩ | ⟨rfl, rfl⟩)
    · exact hgrown.present hx
    · exact ⟨(hlt g).1, (hlt g').1⟩
    · exact ⟨(hlt g).2, (hlt g').2⟩
  · rintro x x' y y' (hx | ⟨rfl, rfl⟩ | ⟨rfl, rfl⟩) (hy | ⟨rfl, rfl⟩ | ⟨rfl, rfl⟩)
    · exact hiso.unique hx hy
    · exact iff_of_false (fun heq => (hnot g).1 (heq ▸ (hiso.present hx).1))
        fun heq => (hnot g').1 (heq ▸ (hiso.present hx).2)
    · exact iff_of_false (fun heq => (hnot g).2 (heq ▸ (hiso.present hx).1))
        fun heq => (hnot g').2 (heq ▸ (hiso.present hx).2)
    · exact iff_of_false (fun heq => (hnot g).1 (heq ▸ (hiso.present hy).1))
        fun heq => (hnot g').1 (heq ▸ (hiso.present hy).2)
    · exact iff_of_true rfl rfl
    · constructor <;> rintro ⟨⟩
    · exact iff_of_false (fun heq => (hnot g).2 (heq ▸ (hiso.present hy).1))
        fun heq => (hnot g').2 (heq ▸ (hiso.present hy).2)
    · constructor <;> rintro ⟨⟩
    · exact iff_of_true rfl rfl
  · rintro x x' (hx | ⟨rfl, rfl⟩ | ⟨rfl, rfl⟩)
    · exact (hgrown.agree hx).mono fun _ _ hy => .inl hy
    · refine .property ?_ ?_
      · rw [hproperty, hproperty]
      · rw [hproperty, hproperty]
        exact .inr (.inr ⟨rfl, rfl⟩)
    · refine .item ?_
      rw [hitem, hitem]
      exact .scalar scalar

end Graph

namespace Schema

variable {s s' t t' : Schema} {data data' : Entries} {id : String}

/-! ### One schema -/

theorem basesOf_reordered (hdata : data.Reordered Role.inSchema data') (id : String) :
    ExceptRel List.Perm (basesOf id data) (basesOf id data') := by
  have hextends := hdata.get? "extends"
  rw [basesOf, basesOf]
  generalize data.get? "extends" = raw, data'.get? "extends" = raw' at hextends
  cases hextends with
  | none => exact .ok .nil
  | @some raw raw' hraw =>
    have hnames := Document.Reordered.textList? hraw
    simp only
    generalize raw.textList? = names, raw'.textList? = names' at hnames
    cases hnames with
    | none => exact .error _ _
    | some hperm => exact .ok hperm

theorem bodyOf_reordered (hdata : data.Reordered Role.inSchema data') (id : String) :
    ExceptRel (Entries.Reordered Role.inDefinition) (bodyOf id data) (bodyOf id data') := by
  have hbody := rel_bind (hdata.get? "schema") fun _ _ hraw => Document.Reordered.entries?_of_definition hraw
  rw [bodyOf, bodyOf]
  generalize (data.get? "schema").bind Document.entries? = body, (data'.get? "schema").bind Document.entries? = body'
    at hbody
  cases hbody with
  | none => exact .error _ _
  | @some body body' hentries =>
    refine .ok ?_
    cases hentries with
    | nil => exact .refl _
    | cons hentry hrest => exact .cons hentry hrest

/-- A property that is read from a reordered definition is a twin. -/
theorem parseProperty_reordered (hdata : data.Reordered Role.inDefinition data') (ctx : Shape.Context) (name : String)
    (g g' : Graph) :
    ExceptRel (fun next next' => next.1.Twin next'.1 (.property next.2) (.property next'.2))
      (g.parseProperty ctx name data) (g'.parseProperty ctx name data') := by
  rw [Graph.parseProperty, Graph.parseProperty]
  refine (Shape.parseField_reordered hdata ctx name).map ?_
  rintro ⟨field, shape⟩ ⟨field', shape'⟩ ⟨rfl, hsimilar⟩
  exact Graph.Stood.twin ⟨g, rfl, .refl _⟩ ⟨g', rfl, .refl _⟩ (Graph.twin_plant hsimilar)

/-- The properties that refer to a parent are added to objects that match, or neither can be. -/
theorem addParent_isomorphism {root root' : PropertyId} {o o' : ObjectNode} (hiso : Isomorphism g g' R)
    (hg : g.Sound) (hg' : g'.Sound) (hroot : R (.property root) (.property root'))
    (ho : g.object? (g.property root).item = some o) (ho' : g'.object? (g'.property root').item = some o')
    (parent : Option String) :
    ExceptRel (fun h h' => ∃ R, Isomorphism h h' R ∧ R (.property root) (.property root'))
      (addParent g id root parent) (addParent g' id root' parent) := by
  cases parent with
  | none => exact .ok ⟨R, hiso, hroot⟩
  | some parent =>
    obtain ⟨hpresent, hpresent'⟩ := hiso.present hroot
    have hheld := hiso.held hroot
    have hmatches : o.Matches R o' := hiso.matches_of_object? hheld ho ho'
    have hlt : ∀ {g : Graph} {o : ObjectNode} {root : PropertyId}, g.Sound → g.Present (.property root) →
        g.object? (g.property root).item = some o → ∀ p ∈ o.properties.elements, p.index < g.properties.size := by
      intro g o root hg hpresent ho p hp
      have hitem := hg.present hpresent (Graph.link_property_iff.mpr rfl)
      exact hg.present hitem (Graph.link_item_property_iff.mpr ⟨o, ho, hp⟩)
    have hadd : ∀ h, addParent g id root (some parent) = .ok h ↔ _ :=
      fun h => addParent_some_eq_ok_iff hpresent ho (hlt hg hpresent ho)
    have hadd' : ∀ h', addParent g' id root' (some parent) = .ok h' ↔ _ :=
      fun h' => addParent_some_eq_ok_iff hpresent' ho' (hlt hg' hpresent' ho')
    have hfree : o.properties.get? (parentProperty parent) = none ↔
        o'.properties.get? (parentProperty parent) = none := by
      have hget := hmatches.properties.get? (parentProperty parent)
      generalize o.properties.get? _ = found, o'.properties.get? _ = found' at hget
      cases hget <;> simp
    refine exceptRel_of_forall (fun h hok => ?_) fun h' hok' => ?_
    · obtain ⟨hnone, rfl⟩ := (hadd h).mp hok
      refine ⟨_, (hadd' _).mpr ⟨hfree.mp hnone, rfl⟩, _, (hiso.addLeaf _ _).setItem (.inl hheld) ?_, .inl hroot⟩
      exact .object ⟨hmatches.typeName_eq, hmatches.required_eq,
        (hmatches.properties.mono fun _ _ hp => .inl hp).put _ (.inr (.inl ⟨rfl, rfl⟩))⟩
    · exact ⟨_, (hadd _).mpr ⟨hfree.mpr ((hadd' h').mp hok').1, rfl⟩⟩

/-- Schemas with the same identifier and the same bases, whose nodes are paired off. -/
structure Alike (g g' : Graph) (s s' : Schema) : Prop where
  id_eq : s.id = s'.id
  bases_perm : s.bases.Perm s'.bases
  isomorphism : Isomorphism g g' (Paired g g' (.property s.root) (.property s'.root))

namespace Alike

theorem symm (halike : Alike g g' s s') : Alike g' g s' s := by
  refine ⟨halike.id_eq.symm, halike.bases_perm.symm, ?_⟩
  exact halike.isomorphism.symm.paired .refl

theorem grown (halike : Alike g g' s s') (hgh : Grown g h) (hgh' : Grown g' h') : Alike h h' s s' :=
  ⟨halike.id_eq, halike.bases_perm, (halike.isomorphism.grown hgh hgh').paired .refl⟩

end Alike

/-- Reordered schemas are read to schemas that are alike. -/
theorem read_reordered (hg : g.Sound) (hg' : g'.Sound) (hdata : data.Reordered Role.inSchema data') :
    ExceptRel (fun next next' => Alike next.1 next'.1 next.2 next'.2) (read g data) (read g' data') := by
  rw [read, read, ← hdata.get?_eq "id" rfl, ← hdata.get?_eq "parent" rfl]
  cases (data.get? "id").bind Document.text? with
  | none => exact .error _ _
  | some id =>
    refine (basesOf_reordered hdata id).bind fun bases bases' _ _ hbases => ?_
    refine (bodyOf_reordered hdata id).bind fun body body' _ _ hbody => ?_
    refine (parseProperty_reordered hbody rootContext id g g').mapError.bind fun next next' hok hok' htwin => ?_
    obtain ⟨hplanted, hloose, -⟩ := planted_parseProperty (Planted.refl g) (mapError_eq_ok_iff.mp hok)
    obtain ⟨hplanted', hloose', -⟩ := planted_parseProperty (Planted.refl g') (mapError_eq_ok_iff.mp hok')
    have hiso := hplanted.isomorphism hplanted' hloose hloose' htwin
    have hsame : (next.1.held next.2).isObject = (next'.1.held next'.2).isObject :=
      (hiso.item (hiso.held .refl)).isObject_eq
    simp only [← hsame]
    cases hobject : (next.1.held next.2).isObject with
    | false => exact .error _ _
    | true =>
      obtain ⟨o, ho⟩ := Graph.exists_object?_of_isObject hobject
      obtain ⟨o', ho'⟩ := Graph.exists_object?_of_isObject (hsame ▸ hobject)
      refine (addParent_isomorphism hiso (hplanted.sound hg) (hplanted'.sound hg') .refl ho ho' _).bind
        fun _ _ _ _ hparent => ?_
      obtain ⟨R, hjoint, hroot⟩ := hparent
      exact .ok ⟨rfl, hbases, hjoint.paired hroot⟩

/-- **From a reordered schema a schema is read that is alike**, or neither can be read. -/
theorem parse_reordered (hg : g.Sound) (hg' : g'.Sound) (hdata : data.Reordered Role.inSchema data') :
    ExceptRel (fun next next' => Alike next.1 next'.1 next.2 next'.2) (parse g data) (parse g' data') := by
  refine (read_reordered hg hg' hdata).bind fun next next' hread hread' halike => .ok ?_
  obtain ⟨hplanted, -⟩ := planted_read hread
  obtain ⟨hplanted', -⟩ := planted_read hread'
  refine ⟨halike.id_eq, halike.bases_perm, ?_⟩
  exact (halike.isomorphism.dedup (hplanted.sound hg) (hplanted'.sound hg') .refl sharingLevel).paired .refl

/-! ### Roots apart -/

/-- Everything below the root of a schema is new when it has been read. -/
theorem new_of_leads (hparse : parse g data = .ok (h, s)) (hx : h.Leads (.property s.root) x) : New g h x := by
  rw [parse, bind_eq_ok_iff] at hparse
  obtain ⟨⟨g₀, t⟩, hread, hparse⟩ := hparse
  obtain ⟨rfl, rfl⟩ := Prod.mk.inj (Except.ok.inj hparse)
  obtain ⟨hplanted, hloose, -⟩ := planted_read hread
  have hconfined : Graph.Confined t.root { x | New g g₀ x } g₀ (g₀.dedup t.root sharingLevel) :=
    Graph.confined_dedup hplanted.new_of_link hplanted.filed hloose.new hloose.not_link
  have hnew : New g g₀ x := by
    induction hx with
    | refl => exact hloose.new
    | tail _ hlink ih => exact hconfined.closed ih hlink
  cases x with
  | item i => exact ⟨hnew.1, hconfined.items_size ▸ hnew.2⟩
  | property p => exact ⟨hnew.1, hconfined.properties_size ▸ hnew.2⟩

/-- No node is below the roots of two schemas. -/
def Apart (g : Graph) (schemas : List Schema) : Prop :=
  ∀ s ∈ schemas, ∀ t ∈ schemas, ∀ x, g.Leads (.property s.root) x → g.Leads (.property t.root) x → s = t

theorem Apart.parse {given : List Schema} (hg : Assembled g given) (hapart : Apart g given)
    (hparse : Schema.parse g data = .ok (h, s)) : Apart h (s :: given) := by
  obtain ⟨hgrown, -⟩ := hasRoot_of_parse hparse
  -- What is below an old root is old, and was below it before.
  have hold : ∀ t ∈ given, ∀ {x}, h.Leads (.property t.root) x → g.Present x ∧ g.Leads (.property t.root) x := by
    intro t ht x hx
    induction hx with
    | refl => exact ⟨(hg.parses.rooted.hasRoot t ht).root.property_lt, .refl⟩
    | tail _ hlink ih =>
      have hlink := (ih.1.link_iff hgrown).mp hlink
      exact ⟨hg.sound.present ih.1 hlink, ih.2.tail hlink⟩
  intro t ht u hu x hxt hxu
  rcases List.mem_cons.mp ht with rfl | ht'
  · rcases List.mem_cons.mp hu with rfl | hu'
    · rfl
    · exact absurd (new_of_leads hparse hxt) (hold u hu' hxu).1.not_new
  · rcases List.mem_cons.mp hu with rfl | hu'
    · exact absurd (new_of_leads hparse hxu) (hold t ht' hxt).1.not_new
    · exact hapart t ht' u hu' x (hold t ht' hxt).2 (hold u hu' hxu).2

theorem apart_of_parseEach {data : List Entries} {read : List Schema} (hread : parseEach {} data = .ok (h, read)) :
    Apart h read := by
  have hboth := parseEach_induction (P := fun h given => Assembled h given ∧ Apart h given)
    (fun hg hparse => ⟨hg.1.parse hparse, hg.2.parse hg.1 hparse⟩) data ⟨assembled_empty, by simp [Apart]⟩ hread
  rw [List.append_nil] at hboth
  exact fun s hs t ht => hboth.2 s (List.mem_reverse.mpr hs) t (List.mem_reverse.mpr ht)

/-! ### Lists of schemas -/

/-- Schemas that are alike one by one, in any order. -/
def AlikeAll (g g' : Graph) (schemas schemas' : List Schema) : Prop :=
  ∃ arranged, schemas.Perm arranged ∧ List.Forall₂ (Alike g g') arranged schemas'

namespace AlikeAll

variable {first first' second second' : List Schema} (halike : AlikeAll g g' first first')

include halike

theorem symm : AlikeAll g' g first' first := by
  obtain ⟨arranged, hperm, hforall⟩ := halike
  obtain ⟨arranged', hforall', hperm'⟩ := List.perm_comp_forall₂ hperm hforall
  exact ⟨arranged', hperm'.symm, hforall'.flip.imp fun _ _ h => h.symm⟩

theorem grown (hgh : Grown g h) (hgh' : Grown g' h') : AlikeAll h h' first first' := by
  obtain ⟨arranged, hperm, hforall⟩ := halike
  exact ⟨arranged, hperm, hforall.imp fun _ _ h => h.grown hgh hgh'⟩

theorem append (halike' : AlikeAll g g' second second') : AlikeAll g g' (first ++ second) (first' ++ second') := by
  obtain ⟨arranged, hperm, hforall⟩ := halike
  obtain ⟨arranged', hperm', hforall'⟩ := halike'
  exact ⟨arranged ++ arranged', hperm.append hperm', List.rel_append hforall hforall'⟩

theorem exists_of_left (hs : s ∈ first) : ∃ s' ∈ first', Alike g g' s s' := by
  obtain ⟨arranged, hperm, hforall⟩ := halike
  exact exists_mem_of_forall₂ hforall (hperm.mem_iff.mp hs)

theorem ids_perm : (first.map Schema.id).Perm (first'.map Schema.id) := by
  obtain ⟨arranged, hperm, hforall⟩ := halike
  have hids : arranged.map Schema.id = first'.map Schema.id := by
    rw [← List.forall₂_eq_eq_eq, List.forall₂_map_left_iff, List.forall₂_map_right_iff]
    exact hforall.imp fun _ _ h => h.id_eq
  exact hids ▸ hperm.map Schema.id

/-- The nodes below the roots of schemas that are alike. -/
def pairs (g g' : Graph) (schemas schemas' : List Schema) (x x' : Node) : Prop :=
  ∃ s ∈ schemas, ∃ s' ∈ schemas', Alike g g' s s' ∧ Paired g g' (.property s.root) (.property s'.root) x x'

/-- **The nodes of all schemas together** are paired off, if the schemas are apart and have different identifiers. -/
theorem isomorphism (hapart : Apart g first) (hapart' : Apart g' first') (hids : (first.map Schema.id).Nodup) :
    Isomorphism g g' (pairs g g' first first') := by
  have hids' := halike.ids_perm.nodup_iff.mp hids
  refine ⟨?_, ?_, ?_⟩
  · rintro x x' ⟨s, hs, s', hs', hss, hx⟩
    exact hss.isomorphism.present hx
  · rintro x x' y y' ⟨s, hs, s', hs', hss, hx⟩ ⟨t, ht, t', ht', htt, hy⟩
    have hiff : s = t ↔ s' = t' := by
      refine ⟨fun heq => List.inj_on_of_nodup_map hids' hs' ht' ?_, fun heq => List.inj_on_of_nodup_map hids hs ht ?_⟩
      · rw [← hss.id_eq, ← htt.id_eq, heq]
      · rw [hss.id_eq, htt.id_eq, heq]
    constructor
    · rintro rfl
      obtain rfl := hapart s hs t ht x hx.leads.1 hy.leads.1
      obtain rfl := hiff.mp rfl
      exact (hss.isomorphism.unique hx hy).mp rfl
    · rintro rfl
      obtain rfl := hapart' s' hs' t' ht' x' hx.leads.2 hy.leads.2
      obtain rfl := hiff.mpr rfl
      exact (hss.isomorphism.unique hx hy).mpr rfl
  · rintro x x' ⟨s, hs, s', hs', hss, hx⟩
    exact (hss.isomorphism.agree hx).mono fun _ _ hy => ⟨s, hs, s', hs', hss, hy⟩

end AlikeAll

/-- Lists of schemas in another order, with each schema reordered. -/
def ReorderedAll (data data' : List Entries) : Prop :=
  ∃ arranged, data.Perm arranged ∧ List.Forall₂ (Entries.Reordered Role.inSchema) arranged data'

/-- A schema was read into a sound graph, and nodes may have been added since. -/
def ReadAs (h : Graph) (data : Entries) (s : Schema) : Prop :=
  ∃ b g : Graph, b.Sound ∧ parse b data = .ok (g, s) ∧ Grown g h

theorem ReadAs.alike (hs : ReadAs h data s) (hs' : ReadAs h' data' s') (hdata : data.Reordered Role.inSchema data') :
    Alike h h' s s' := by
  obtain ⟨b, g, hb, hparse, hgrown⟩ := hs
  obtain ⟨b', g', hb', hparse', hgrown'⟩ := hs'
  obtain ⟨next, hnext, halike⟩ := (parse_reordered hb hb' hdata).exists_of_left hparse
  obtain rfl := Except.ok.inj (hparse'.symm.trans hnext)
  exact halike.grown hgrown hgrown'

theorem sound_of_parse (hg : g.Sound) (hparse : parse g data = .ok (h, s)) : h.Sound :=
  (crowned_parse hg hparse).1

/-- The schemas of a list are read one by one. -/
theorem readAs_of_parseEach (data : List Entries) : ∀ {g : Graph} {read : List Schema}, g.Sound →
    parseEach g data = .ok (h, read) → h.Sound ∧ Grown g h ∧ List.Forall₂ (ReadAs h) data read := by
  induction data with
  | nil =>
    intro g read hg hread
    obtain ⟨rfl, rfl⟩ := Prod.mk.inj (Except.ok.inj hread)
    exact ⟨hg, .refl g, .nil⟩
  | cons entries data ih =>
    intro g read hg hread
    obtain ⟨next, s, rest, hs, hrest, rfl⟩ := parseEach_cons_eq_ok_iff.mp hread
    obtain ⟨hsound, hgrown, hforall⟩ := ih (sound_of_parse hg hs) hrest
    exact ⟨hsound, (hasRoot_of_parse hs).1.trans hgrown, .cons ⟨g, next, hg, hs, hgrown⟩ hforall⟩

/-- A list of schemas can be read exactly if each of its schemas can be read alone. -/
theorem parseEach_alone (data : List Entries) : ∀ {g : Graph}, g.Sound →
    ExceptRel (fun _ _ => True) (parseEach g data) (data.mapM (parse {})) := by
  induction data with
  | nil => exact fun _ => .ok trivial
  | cons entries data ih =>
    intro g hg
    rw [parseEach, List.mapM_cons]
    refine (parse_reordered hg Graph.sound_empty (Entries.Reordered.refl entries)).bind fun next _ hparse _ _ => ?_
    exact (ih (sound_of_parse hg hparse)).bind fun _ _ _ _ _ => .ok trivial

/-- **From lists of schemas in another order schemas are read that are alike**, or neither list can be read. -/
theorem parseEach_reordered {data data' : List Entries} (hg : g.Sound) (hg' : g'.Sound)
    (hdata : ReorderedAll data data') :
    ExceptRel (fun next next' => AlikeAll next.1 next'.1 next.2 next'.2) (parseEach g data) (parseEach g' data') := by
  obtain ⟨arranged, hperm, hforall⟩ := hdata
  have halone : ExceptRel (fun _ _ => True) (data.mapM (parse {})) (data'.mapM (parse {})) := by
    have heach : ExceptRel (List.Forall₂ fun _ _ => True) (arranged.mapM (parse {})) (data'.mapM (parse {})) :=
      exceptRel_mapM (hforall.imp fun _ _ hentries =>
        (parse_reordered Graph.sound_empty Graph.sound_empty hentries).imp fun _ _ _ _ _ => trivial)
    exact (exceptRel_mapM_of_perm hperm).trans heach fun _ _ _ _ _ => trivial
  have hboth : ExceptRel (fun _ _ => True) (parseEach g data) (parseEach g' data') :=
    ((parseEach_alone data hg).trans halone fun _ _ _ _ _ => trivial).trans (parseEach_alone data' hg').symm
      fun _ _ _ _ _ => trivial
  refine hboth.imp ?_
  rintro ⟨h, read⟩ ⟨h', read'⟩ hread hread' -
  obtain ⟨-, -, hreadAs⟩ := readAs_of_parseEach data hg hread
  obtain ⟨-, -, hreadAs'⟩ := readAs_of_parseEach data' hg' hread'
  obtain ⟨arranged', harranged, hperm'⟩ := List.perm_comp_forall₂ hperm.symm hreadAs
  refine ⟨arranged', hperm'.symm, ?_⟩
  have hmiddle : List.Forall₂ (fun s entries' => ∃ entries, ReadAs h entries s ∧ entries.Reordered Role.inSchema entries')
      arranged' data' := forall₂_trans (fun _ entries _ hs hentries => ⟨entries, hs, hentries⟩) harranged.flip hforall
  exact forall₂_trans (fun s entries' s' ⟨entries, hs, hentries⟩ hs' => hs.alike hs' hentries) hmiddle hreadAs'

end Schema

end Schemata
