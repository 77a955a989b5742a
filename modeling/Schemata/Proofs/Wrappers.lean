import Mathlib.Data.List.Nodup
import Mathlib.Data.List.ProdSigma
import Schemata.Go.Source
import Schemata.Proofs.Casing
import Schemata.Proofs.Collection
import Schemata.Proofs.Reading

/-!
# Names of wrappers

The function of a typed wrapper is named by a verb and the Go name of an object behind it, with nothing between them. The
verbs say whether a lock is taken, whether one value is fetched or many are listed, whether by filter, and whether the raw
type is returned.

Two verbs that one text can begin with differ by what the longer one ends in: `Raw`, `Filter` or `FilterRaw`
(`WrapperFlavor.verb_eq_of_prefix`). So the functions of different objects, or of different verbs, have different names
unless the Go name of one object is that of another one behind such a word (`nodup_wrapperFunctions_iff`).
-/

namespace Schemata

namespace Go

/-! ### Declared names -/

/-- The name of the function that a source text starts to declare, if it starts so: what stands between the word for a
function and the first bracket. -/
def declaredName? (text : String) : Option String :=
  match text.toList with
  | 'f' :: 'u' :: 'n' :: 'c' :: ' ' :: rest => some (String.ofList (rest.takeWhile (· ≠ '(')))
  | _ => none

theorem declaredName?_func {verb name : String} (hverb : '(' ∉ verb.toList) (hname : '(' ∉ name.toList)
    (rest : String) :
    declaredName? ("func " ++ (verb ++ (name ++ ("(schema " ++ rest)))) = some (verb ++ name) := by
  have hinside : '(' ∉ (verb ++ name).toList := by
    rw [String.toList_append, List.mem_append, not_or]
    exact ⟨hverb, hname⟩
  have hchars : ("func " ++ (verb ++ (name ++ ("(schema " ++ rest)))).toList =
      'f' :: 'u' :: 'n' :: 'c' :: ' ' :: ((verb ++ name).toList ++ '(' :: ("schema " ++ rest).toList) := by
    simp
  rw [declaredName?, hchars]
  simp only
  rw [Text.takeWhile_ne_append hinside, String.ofList_toList]

namespace WrapperFlavor

variable (f : WrapperFlavor) (runtime type : String) {name : String}

theorem bracket_notMem_fetchVerb : '(' ∉ f.fetchVerb.toList := by
  obtain ⟨raw, lock, filter⟩ := f
  cases raw <;> cases lock <;> cases filter <;> decide

theorem bracket_notMem_listVerb : '(' ∉ f.listVerb.toList := by
  obtain ⟨raw, lock, filter⟩ := f
  cases raw <;> cases lock <;> cases filter <;> decide

theorem exists_fetch_eq (name : String) :
    ∃ rest, f.fetch runtime name type = "func " ++ (f.fetchVerb ++ (name ++ ("(schema " ++ rest))) := by
  unfold fetch
  simp only [String.append_assoc]
  exact ⟨_, rfl⟩

theorem exists_list_eq (name : String) :
    ∃ rest, f.list runtime name type = "func " ++ (f.listVerb ++ (name ++ ("(schema " ++ rest))) := by
  unfold list
  simp only [String.append_assoc]
  exact ⟨_, rfl⟩

theorem declaredName?_fetch (hname : '(' ∉ name.toList) :
    declaredName? (f.fetch runtime name type) = some (f.fetchVerb ++ name) := by
  obtain ⟨rest, heq⟩ := f.exists_fetch_eq runtime type name
  rw [heq, declaredName?_func f.bracket_notMem_fetchVerb hname]

theorem declaredName?_list (hname : '(' ∉ name.toList) :
    declaredName? (f.list runtime name type) = some (f.listVerb ++ name) := by
  obtain ⟨rest, heq⟩ := f.exists_list_eq runtime type name
  rw [heq, declaredName?_func f.bracket_notMem_listVerb hname]

/-- The verbs of all wrappers for one type. -/
def verbs (raw : Bool) : List String :=
  [false, true].flatMap fun lock => (fetches raw lock).map fetchVerb ++ [({ raw, lock } : WrapperFlavor).listVerb]

/-- Every wrapper declares its verb with the name behind it. -/
theorem declaredNames_all (raw : Bool) (hname : '(' ∉ name.toList) :
    (all raw runtime name type).map declaredName? = (verbs raw).map fun verb => some (verb ++ name) := by
  simp [all, verbs, fetches, declaredName?_fetch _ _ _ hname, declaredName?_list _ _ _ hname]

/-- One verb begins with another only if what comes behind says that a fetch is by filter, or that the raw type is
returned. -/
theorem verb_eq_of_prefix : ∀ verb ∈ verbs false ++ verbs true, ∀ longer ∈ verbs false ++ verbs true,
    verb.toList <+: longer.toList → longer = verb ∨ ∃ word ∈ ["Raw", "Filter", "FilterRaw"], longer = verb ++ word := by
  decide

theorem nodup_verbs : (verbs false ++ verbs true).Nodup := by
  decide

/-- The names of a verb and something behind it are told apart, unless one thing is another behind such a word. -/
theorem eq_of_append_eq {names : List String}
    (hfree : ∀ word ∈ ["Raw", "Filter", "FilterRaw"], ∀ x ∈ names, ∀ y ∈ names, x ≠ word ++ y)
    {verb verb' x y : String} (hverb : verb ∈ verbs false ++ verbs true) (hverb' : verb' ∈ verbs false ++ verbs true)
    (hx : x ∈ names) (hy : y ∈ names) (heq : verb ++ x = verb' ++ y) : verb = verb' ∧ x = y := by
  have hchars : verb.toList ++ x.toList = verb'.toList ++ y.toList := by
    rw [← String.toList_append, heq, String.toList_append]
  -- Of two verbs that one text begins with, one begins with the other.
  rcases List.prefix_or_prefix_of_prefix (List.prefix_append verb.toList x.toList)
    (hchars ▸ List.prefix_append verb'.toList y.toList) with hprefix | hprefix
  · rcases verb_eq_of_prefix verb hverb verb' hverb' hprefix with rfl | ⟨word, hword, rfl⟩
    · exact ⟨rfl, (String.append_right_inj _).mp heq⟩
    · rw [String.append_assoc] at heq
      exact absurd ((String.append_right_inj _).mp heq) (hfree word hword x hx y hy)
  · rcases verb_eq_of_prefix verb' hverb' verb hverb hprefix with rfl | ⟨word, hword, rfl⟩
    · exact ⟨rfl, (String.append_right_inj _).mp heq⟩
    · rw [String.append_assoc] at heq
      exact absurd ((String.append_right_inj _).mp heq).symm (hfree word hword y hy x hx)

/-- The functions of the wrappers for the given names, those for interfaces first. -/
def functionNames (names : List String) : List String :=
  (names.flatMap fun name => (verbs false).map (· ++ name)) ++ names.flatMap fun name => (verbs true).map (· ++ name)

/-- Functions for different names are different exactly if no name is another one behind one of three words. -/
theorem nodup_functionNames_iff {names : List String} (hnames : names.Nodup) :
    (functionNames names).Nodup ↔
      ∀ word ∈ ["Raw", "Filter", "FilterRaw"], ∀ x ∈ names, ∀ y ∈ names, x ≠ word ++ y := by
  let pairs : List (String × String) := names ×ˢ verbs false ++ names ×ˢ verbs true
  have hmem : ∀ pair : String × String, pair ∈ pairs ↔ pair.1 ∈ names ∧ pair.2 ∈ verbs false ++ verbs true := by
    rintro ⟨name, verb⟩
    simp only [pairs, List.mem_append, List.mem_product]
    tauto
  have hpairs : pairs.Nodup := by
    obtain ⟨hfalse, htrue, hdisjoint⟩ := List.nodup_append.mp nodup_verbs
    refine List.nodup_append.mpr ⟨hnames.product hfalse, hnames.product htrue, ?_⟩
    rintro ⟨name, verb⟩ hleft ⟨name', verb'⟩ hright heq
    obtain ⟨-, rfl⟩ := Prod.mk.inj heq
    exact hdisjoint _ (List.mem_product.mp hleft).2 _ (List.mem_product.mp hright).2 rfl
  have hlist : functionNames names = pairs.map fun pair => pair.2 ++ pair.1 := by
    simp only [functionNames, pairs, List.map_append, SProd.sprod, List.product, List.map_flatMap, List.map_map]
    rfl
  rw [hlist, List.nodup_map_iff_inj_on hpairs]
  constructor
  · intro hinj word hword x hx y hy heq
    -- The fetch of the one by identifier would be another fetch of the other.
    have hfetch : ∀ word ∈ ["Raw", "Filter", "FilterRaw"], "Fetch" ∈ verbs false ++ verbs true ∧
        "Fetch" ++ word ∈ verbs false ++ verbs true ∧ "Fetch" ≠ "Fetch" ++ word := by
      decide
    obtain ⟨hshort, hlong, hne⟩ := hfetch word hword
    have hsame := hinj (x, "Fetch") ((hmem _).mpr ⟨hx, hshort⟩) (y, "Fetch" ++ word) ((hmem _).mpr ⟨hy, hlong⟩)
      (by rw [heq, String.append_assoc])
    exact hne (Prod.mk.inj hsame).2
  · intro hfree a ha b hb heq
    obtain ⟨hverb, hname⟩ :=
      eq_of_append_eq hfree ((hmem a).mp ha).2 ((hmem b).mp hb).2 ((hmem a).mp ha).1 ((hmem b).mp hb).1 heq
    exact Prod.ext hname hverb

end WrapperFlavor

/-! ### All wrappers -/

/-- The Go names of the records that wrappers are written for. -/
def wrappedNames (settings : Settings) (records : List Record) : List String :=
  (records.filter fun r => !r.isEmpty).map fun r => r.name.name settings.rawSuffix

/-- The functions that the typed wrappers of generated sources declare, those for interfaces first. -/
def Sources.wrapperFunctions (s : Sources) : List String :=
  (s.wrappers ++ s.rawWrappers).filterMap declaredName?

theorem declaredNames_wrappersOf (settings : Settings) (raw : Bool) (records : List Record) :
    (records.flatMap (wrappersOf settings raw)).map declaredName? =
      ((wrappedNames settings records).flatMap fun name => (WrapperFlavor.verbs raw).map (· ++ name)).map some := by
  induction records with
  | nil => rfl
  | cons r records ih =>
    rw [List.flatMap_cons, List.map_append, ih, wrappersOf]
    cases hempty : r.isEmpty with
    | true =>
      have hskip : wrappedNames settings (r :: records) = wrappedNames settings records := by
        simp [wrappedNames, hempty]
      rw [hskip]
      rfl
    | false =>
      have hkeep : wrappedNames settings (r :: records) =
          r.name.name settings.rawSuffix :: wrappedNames settings records := by
        simp [wrappedNames, hempty]
      have hwrappers := WrapperFlavor.declaredNames_all settings.goextPackage (wrapperType settings r.name raw) raw
        (Naming.bracket_notMem_goName r.name.typeName settings.rawSuffix)
      rw [hkeep, List.flatMap_cons, List.map_append, List.map_map]
      exact congrArg (· ++ _) hwrappers

section Collected

variable (settings : Settings) (g : Graph) (collected : Collected)

theorem declaredNames_generateCollected :
    ((generateCollected settings g collected).wrappers ++ (generateCollected settings g collected).rawWrappers).map
        declaredName? =
      (WrapperFlavor.functionNames (wrappedNames settings (records g collected.topLevel))).map some := by
  rw [WrapperFlavor.functionNames, List.map_append, List.map_append, ← declaredNames_wrappersOf,
    ← declaredNames_wrappersOf]
  rfl

theorem wrapperFunctions_generateCollected :
    (generateCollected settings g collected).wrapperFunctions =
      WrapperFlavor.functionNames (wrappedNames settings (records g collected.topLevel)) := by
  have hfunctions := congrArg (List.filterMap id) (declaredNames_generateCollected settings g collected)
  simp only [List.filterMap_map, Function.id_comp, List.filterMap_some] at hfunctions
  exact hfunctions

/-- **Names of wrappers clash only behind a word.** Every typed wrapper declares a function. If the Go names of the root
objects with properties are pairwise distinct, then so are these functions, exactly if none of the Go names is another one
behind `Raw`, `Filter` or `FilterRaw`. -/
theorem nodup_wrapperFunctions_iff (hnames : (wrappedNames settings (records g collected.topLevel)).Nodup) :
    (∀ text ∈ (generateCollected settings g collected).wrappers ++ (generateCollected settings g collected).rawWrappers,
      (declaredName? text).isSome = true) ∧
    ((generateCollected settings g collected).wrapperFunctions.Nodup ↔
      ∀ word ∈ ["Raw", "Filter", "FilterRaw"], ∀ x ∈ wrappedNames settings (records g collected.topLevel),
        ∀ y ∈ wrappedNames settings (records g collected.topLevel), x ≠ word ++ y) := by
  refine ⟨fun text htext => ?_, ?_⟩
  · have hmem := List.mem_map_of_mem (f := declaredName?) htext
    rw [declaredNames_generateCollected] at hmem
    obtain ⟨name, -, hname⟩ := List.mem_map.mp hmem
    rw [← hname, Option.isSome_some]
  · rw [wrapperFunctions_generateCollected]
    exact WrapperFlavor.nodup_functionNames_iff hnames

end Collected

end Go

/-! ### Orders, documents and raw documents -/

namespace Conversion

/-- An order and its line have wrappers with different names. -/
theorem wrappers_of_orders_are_apart :
    (Go.wrappedNames {} (Go.records orderLine.1 collectedOrders.topLevel)).Nodup ∧
      (Go.generateCollected {} orderLine.1 collectedOrders).wrapperFunctions.Nodup := by
  have hnames : Go.wrappedNames {} (Go.records orderLine.1 collectedOrders.topLevel) = ["OrderRaw", "OrderLineRaw"] := by
    decide +kernel
  have hnodup : (Go.wrappedNames {} (Go.records orderLine.1 collectedOrders.topLevel)).Nodup := by
    rw [hnames]
    decide
  refine ⟨hnodup, (Go.nodup_wrapperFunctions_iff {} orderLine.1 collectedOrders hnodup).2.mpr ?_⟩
  rw [hnames]
  decide

section Documents

open Schema (definition)
open Lineage (document documentData parse_document)

/-- A raw document is of a schema of its own. -/
def rawDocumentData : Entries :=
  [(.text "id", .text "raw_document"), (.text "schema", .mapping
    [(.text "type", .text "object"), (.text "properties", .mapping [(.text "note", .mapping (definition "string"))])])]

/-- The raw document, and the graph with both. -/
def rawDocument : Graph × Schema :=
  (Schema.read document.1 rawDocumentData).toOption.getD default

theorem parse_rawDocument : Schema.parse document.1 rawDocumentData = .ok rawDocument := by
  refine Schema.parse_eq_of_plan_eq_nil (eq_ok_of_isSome_toOption (by decide +kernel)) ?_
  rw [Sharing.Linked.plan, Sharing.plan, Sharing.sweepTree, Sharing.candidates_eq_insertionSort]
  decide +kernel

/-- Neither schema extends the other, so that nothing is joined. -/
theorem prepares_documents :
    Prepares [] [documentData, rawDocumentData] [] [document.2, rawDocument.2] rawDocument.1
      [rawDocument.2, document.2] rawDocument.1 := by
  refine ⟨⟨⟨{}, rfl, ?_⟩, by decide +kernel⟩, ?_, ?_⟩
  · simp only [Schema.parseEach, parse_document, parse_rawDocument, bind, Except.bind]
    rfl
  · rw [eq_ok_of_isSome_toOption (x := Lineage.order _ _) (by decide +kernel)]
    exact congrArg _ (by decide +kernel)
  · rw [eq_ok_of_isSome_toOption (x := List.foldlM _ _ _) (by decide +kernel)]
    exact congrArg _ (by decide +kernel)

/-- **Two wrappers have one name**: the raw type of a document is fetched by the function that fetches a raw document. -/
theorem wrappers_of_documents_clash : ∃ collected w,
    (convert [] [documentData, rawDocumentData]).run.run {} = (.ok collected, w) ∧
    Go.wrappedNames {} (Go.records w.graph collected.topLevel) = ["DocumentRaw", "RawDocumentRaw"] ∧
    ¬ (Go.generateCollected {} w.graph collected).wrapperFunctions.Nodup := by
  obtain ⟨v, hprepare, hgraph⟩ := prepare_eq_ok_iff.mpr ⟨_, _, _, _, prepares_documents, rfl⟩
  obtain ⟨hresult, hsame⟩ := run_convert [] [documentData, rawDocumentData] {}
  obtain ⟨collected, hcollect, hnames⟩ : ∃ collected,
      collect rawDocument.1 (schemasOf [document.2, rawDocument.2]) = .ok collected ∧
        Go.wrappedNames {} (Go.records rawDocument.1 collected.topLevel) = ["DocumentRaw", "RawDocumentRaw"] :=
    ⟨_, eq_ok_of_isSome_toOption (by decide +kernel), by decide +kernel⟩
  rw [hprepare, hgraph] at hresult
  rw [hprepare, hgraph] at hsame
  refine ⟨_, _, Prod.ext (hresult.trans hcollect) rfl, ?_, ?_⟩
  · rw [hsame, hnames]
  · rw [hsame, Go.wrapperFunctions_generateCollected, hnames]
    decide

end Documents

end Conversion

end Schemata
