import Schemata.Proofs.Graph.Paths
import Schemata.Proofs.Quoting
import Schemata.Proofs.Sharing.Texts

/-!
# Reading a tree off its text

The text of an item is hashed in place of the tree below it. Defaults are quoted in it, so it is known where they end
(`Literal.textOf_append_inj`). Names of properties and tokens that are passed through as kinds stand in it as they are:
a name may well go on like the text of what another property holds, and then two trees have one text
(`Graph.addresses_have_one_text`).

Names and kinds in which no such place occurs are *legible* (`LegibleName`, `LegibleKind`). A tree whose names and kinds
are legible is told by its text, whatever follows (`Sharing.LegibleTree.chars_append_inj`), so items with legible names and kinds
have one text exactly if they have one tree of fingerprints (`Graph.text_eq_iff_pattern_eq`).
-/

namespace Schemata

/-! ### Where a piece of a text ends -/

/-- Behind a list stands one of some separators, and none of them begins earlier. -/
def Ends {α ι : Type} (separator : ι → List α) (xs : List α) : Prop :=
  ∀ (a b : ι) (ys : List α), ys ++ separator a <+: xs ++ separator b → ys = xs

theorem Ends.eq {α ι : Type} {separator : ι → List α} {xs ys rest rest' : List α} {a b : ι} (hxs : Ends separator xs)
    (hys : Ends separator ys) (h : xs ++ separator a ++ rest = ys ++ separator b ++ rest') : xs = ys := by
  rcases List.prefix_or_prefix_of_prefix (List.prefix_append _ rest) (h ▸ List.prefix_append _ rest') with hle | hle
  · exact hys a b xs hle
  · exact (hxs b a ys hle).symm

theorem prefix_concat_of_prefix_append_cons {α : Type} {front xs rest : List α} {d : α} (hd : d ∉ front)
    (h : front ++ [d] <+: xs ++ d :: rest) : front ++ [d] <+: xs ++ [d] := by
  have hfront : xs ++ [d] <+: xs ++ d :: rest := ⟨rest, by simp⟩
  rcases List.prefix_or_prefix_of_prefix h hfront with hle | hle
  · exact hle
  · rcases List.prefix_concat_iff.mp hle with heq | hle
    · exact heq ▸ List.prefix_refl _
    · exact absurd (hle.mem (by simp)) hd

/-! ### Defaults from the left -/

theorem Literal.isPlain_or_eq_quoted (d : Option Literal) :
    IsPlain (textOf d).toList ∨ ∃ s, textOf d = Text.quoted s := by
  cases d with
  | none => exact .inl (by decide)
  | some l => exact l.isPlain_render_or_eq_quoted

/-- It is known where the text of a default ends, if a parenthesis follows. -/
theorem Literal.textOf_append_inj {d e : Option Literal} {xs ys : List Char}
    (h : (textOf d).toList ++ '(' :: xs = (textOf e).toList ++ '(' :: ys) : textOf d = textOf e ∧ xs = ys := by
  have hmixed : ∀ {cs xs ys : List Char} {s : String}, IsPlain cs → cs ++ '(' :: xs ≠ (Text.quoted s).toList ++ ys := by
    intro cs xs ys s hcs heq
    rw [Text.toList_quoted] at heq
    cases cs with
    | nil => exact absurd (List.cons.inj heq).1 (by decide)
    | cons c cs => exact (hcs c (by simp)).2.1 (List.cons.inj heq).1
  have hfree : ∀ {cs : List Char}, IsPlain cs → '(' ∉ cs := fun hcs hmem => (hcs '(' hmem).2.2 rfl
  rcases isPlain_or_eq_quoted d with hd | ⟨s, hd⟩ <;> rcases isPlain_or_eq_quoted e with he | ⟨t, he⟩
  · obtain ⟨heq, rfl⟩ := eq_of_append_cons_eq (hfree hd) (hfree he) h
    exact ⟨String.toList_inj.mp heq, rfl⟩
  · exact absurd (he ▸ h) (hmixed hd)
  · exact absurd (hd ▸ h).symm (hmixed he)
  · rw [hd, he] at h ⊢
    obtain ⟨rfl, hrest⟩ := Text.quoted_append_inj h
    exact ⟨rfl, (List.cons.inj hrest).2⟩

/-! ### Names and kinds that can be read in a text -/

/-- A name that is not taken for the end of an object, and in which no item seems to begin. -/
structure LegibleName (name : String) : Prop where
  not_closed : ¬ [')'] <+: name.toList
  not_opened : ¬ ['(', '#'] <:+: name.toList

instance (name : String) : Decidable (LegibleName name) :=
  decidable_of_iff (¬ [')'] <+: name.toList ∧ ¬ ['(', '#'] <:+: name.toList)
    ⟨fun h => ⟨h.1, h.2⟩, fun h => ⟨h.not_closed, h.not_opened⟩⟩

/-- A truth value between commas, as it stands behind a kind. -/
def flagChars (b : Bool) : List Char :=
  ',' :: ((if b then "true" else "false" : String).toList ++ [','])

theorem eq_of_flagChars_append_eq {a b : Bool} {xs ys : List Char} (h : flagChars a ++ xs = flagChars b ++ ys) :
    a = b := by
  revert h
  cases a <;> cases b <;> simp [flagChars]

/-- A kind that is not taken for an object or an array, and in which no truth value seems to follow. -/
structure LegibleKind (kind : String) : Prop where
  not_object : ¬ ['*', '('] <+: kind.toList
  not_array : ¬ ['[', ']', '('] <+: kind.toList
  not_flag : ∀ b, ¬ flagChars b <:+: kind.toList ++ [',']

instance (kind : String) : Decidable (LegibleKind kind) :=
  decidable_of_iff (¬ ['*', '('] <+: kind.toList ∧ ¬ ['[', ']', '('] <+: kind.toList ∧
      ∀ b, ¬ flagChars b <:+: kind.toList ++ [','])
    ⟨fun h => ⟨h.1, h.2.1, h.2.2⟩, fun h => ⟨h.not_object, h.not_array, h.not_flag⟩⟩

/-- A legible name ends where the first item begins. -/
theorem LegibleName.ends {name : String} (hname : LegibleName name) :
    Ends (fun _ : Unit => ['(', '#']) name.toList := by
  rintro ⟨⟩ ⟨⟩ ys ⟨rest, h⟩
  rw [List.append_assoc] at h
  rcases List.append_eq_append_iff.mp h with ⟨as, hname', has⟩ | ⟨bs, hys, hbs⟩
  · match as, has with
    | [], _ => exact (hname'.trans (List.append_nil ys)).symm
    | [_], has => exact absurd (List.cons.inj (List.cons.inj has).2).1 (by decide)
    | a :: a' :: as, has =>
      obtain ⟨rfl, htail⟩ := List.cons.inj has
      obtain ⟨rfl, -⟩ := List.cons.inj htail
      exact absurd ⟨ys, as, by rw [hname']; simp⟩ hname.not_opened
  · have hlength := congrArg List.length hbs
    have hnil : bs = [] := List.length_eq_zero_iff.mp (by simp at hlength; omega)
    rw [hys, hnil, List.append_nil]

/-- A legible kind ends where the first truth value stands. -/
theorem LegibleKind.ends {kind : String} (hkind : LegibleKind kind) : Ends flagChars kind.toList := by
  rintro a b ys ⟨rest, h⟩
  rw [List.append_assoc] at h
  have hplain : ∀ c : Bool, ',' ∉ (if c then "true" else "false" : String).toList := by decide
  rcases List.append_eq_append_iff.mp h with ⟨as, hkind', has⟩ | ⟨bs, hys, hbs⟩
  · cases as with
    | nil => exact (hkind'.trans (List.append_nil ys)).symm
    | cons c as =>
      -- The truth value ends at the next comma, which is one of the kind or the one behind it.
      obtain ⟨rfl, htail⟩ := List.cons.inj has
      have hfront : (if a then "true" else "false" : String).toList ++ [','] <+: as ++ [','] :=
        prefix_concat_of_prefix_append_cons (hplain a) ⟨rest, htail⟩
      obtain ⟨after, hafter⟩ := hfront
      exact absurd ⟨ys, after, by rw [hkind', flagChars]; simp [← hafter]⟩ (hkind.not_flag a)
  · have hcount := congrArg (List.count ',') hbs
    cases bs with
    | nil => exact hys.trans (List.append_nil _)
    | cons c bs =>
      obtain ⟨rfl, -⟩ := List.cons.inj hbs
      simp [flagChars, List.count_eq_zero_of_not_mem (hplain _)] at hcount
      omega

/-- Kinds are not taken for what else follows a mark. -/
theorem LegibleKind.ne_opening {kind : String} (hkind : LegibleKind kind) {front : List Char}
    (hfront : front = ['[', ']', '('] ∨ front = ['*', '(']) {b : Bool} {xs ys : List Char} :
    kind.toList ++ flagChars b ++ xs ≠ front ++ ys := by
  intro heq
  have hcomma : ',' ∉ front := by rcases hfront with rfl | rfl <;> decide
  have hrow : kind.toList ++ ',' :: ((if b then "true" else "false" : String).toList ++ ',' :: xs) = front ++ ys := by
    rw [← heq, flagChars]
    simp
  have hle : front <+: kind.toList := prefix_of_prefix_append_cons hcomma ⟨ys, hrow.symm⟩
  rcases hfront with rfl | rfl
  · exact hkind.not_array hle
  · exact hkind.not_object hle

/-! ### Trees that can be read off their texts -/

namespace Sharing

variable {t t' : Tree String} {xs ys : List Char}

/-- The characters of the text of a tree of fingerprints. -/
def chars (t : Tree String) : List Char :=
  (t.text id).toList

/-- The tree of fingerprints of an item with legible names and kinds. -/
inductive LegibleTree : Tree String → Prop where
  /-- The fingerprint of a scalar. -/
  | scalar (s : Scalar) (hs : LegibleKind s.kind.name) : LegibleTree (.node s.fingerprint [])
  /-- An array over its element. -/
  | array {t : Tree String} (ht : LegibleTree t) : LegibleTree (.node "#[]" [t])
  /-- An object over its properties, each of them over the item that it holds. -/
  | object (fields : List (String × Tree String)) (hnames : ∀ f ∈ fields, LegibleName f.1)
      (hbelow : ∀ f ∈ fields, LegibleTree f.2) : LegibleTree (.node "#*" (fields.map fun f => .node f.1 [f.2]))

/-- The characters of properties in a row. -/
def fieldChars (fields : List (String × Tree String)) : List Char :=
  fields.flatMap fun f => f.1.toList ++ '(' :: (chars f.2 ++ [',', ')', ','])

theorem fieldChars_cons (f : String × Tree String) (fields : List (String × Tree String)) (xs : List Char) :
    fieldChars (f :: fields) ++ xs = f.1.toList ++ '(' :: (chars f.2 ++ ',' :: ')' :: ',' :: (fieldChars fields ++ xs)) := by
  simp [fieldChars]

theorem chars_node (n : String) (ts : List (Tree String)) :
    chars (.node n ts) = n.toList ++ '(' :: ((ts.flatMap fun t => chars t ++ [',']) ++ [')']) := by
  rw [chars, Tree.text, Tree.textAll_eq_join]
  simp [chars, List.flatMap_map]

theorem chars_scalar (s : Scalar) (xs : List Char) :
    chars (.node s.fingerprint []) ++ xs =
      '#' :: (s.kind.name.toList ++ flagChars s.isNull ++ ((Literal.textOf s.default).toList ++ '(' :: ')' :: xs)) := by
  rw [chars_node, Scalar.fingerprint, flagChars, Literal.textOf]
  simp

theorem chars_array (t : Tree String) (xs : List Char) :
    chars (.node "#[]" [t]) ++ xs = '#' :: (['[', ']', '('] ++ (chars t ++ ',' :: ')' :: xs)) := by
  rw [chars_node]
  simp

theorem chars_object (fields : List (String × Tree String)) (xs : List Char) :
    chars (.node "#*" (fields.map fun f => .node f.1 [f.2])) ++ xs =
      '#' :: (['*', '('] ++ (fieldChars fields ++ ')' :: xs)) := by
  rw [chars_node, fieldChars, List.flatMap_map]
  simp [chars_node]

/-- The text of an item begins with a mark. -/
theorem LegibleTree.exists_chars_eq (ht : LegibleTree t) : ∃ rest, chars t = '#' :: rest := by
  rw [← List.append_nil (chars t)]
  cases ht with
  | scalar s => exact ⟨_, chars_scalar s []⟩
  | array => exact ⟨_, chars_array _ []⟩
  | object fields => exact ⟨_, chars_object fields []⟩

/-- It is known whether one more property follows in an object. -/
theorem fieldChars_cons_ne {f : String × Tree String} {fields : List (String × Tree String)} (hname : LegibleName f.1) :
    fieldChars (f :: fields) ++ ys ≠ ')' :: xs := by
  intro heq
  rw [fieldChars_cons] at heq
  refine hname.not_closed ?_
  cases hchars : f.1.toList with
  | nil =>
    rw [hchars] at heq
    exact absurd (List.cons.inj heq).1 (by decide)
  | cons c cs =>
    rw [hchars] at heq
    exact ⟨cs, by rw [(List.cons.inj heq).1]; rfl⟩

/-- Properties in a row are told by their characters if the items that they hold are. -/
theorem fieldChars_append_inj (fields : List (String × Tree String)) : ∀ {fields' : List (String × Tree String)}
    {xs ys : List Char}, (∀ f ∈ fields, LegibleName f.1 ∧ LegibleTree f.2 ∧ ∀ {t : Tree String} {xs ys : List Char},
      LegibleTree t → chars f.2 ++ xs = chars t ++ ys → f.2 = t ∧ xs = ys) →
    (∀ f ∈ fields', LegibleName f.1 ∧ LegibleTree f.2) →
    fieldChars fields ++ ')' :: xs = fieldChars fields' ++ ')' :: ys → fields = fields' ∧ xs = ys := by
  induction fields with
  | nil =>
    intro fields' xs ys _ hfields' h
    cases fields' with
    | nil => exact ⟨rfl, (List.cons.inj h).2⟩
    | cons f' fields' => exact absurd h.symm (fieldChars_cons_ne (hfields' f' (by simp)).1)
  | cons f fields ih =>
    intro fields' xs ys hfields hfields' h
    obtain ⟨hname, htree, hinj⟩ := hfields f (by simp)
    cases fields' with
    | nil => exact absurd h (fieldChars_cons_ne hname)
    | cons f' fields' =>
      obtain ⟨hname', htree'⟩ := hfields' f' (by simp)
      obtain ⟨rest, hrest⟩ := htree.exists_chars_eq
      obtain ⟨rest', hrest'⟩ := htree'.exists_chars_eq
      -- The names end where the items begin, then the items end by themselves.
      rw [fieldChars_cons, fieldChars_cons] at h
      have hrow : f.1.toList ++ ['(', '#'] ++ (rest ++ ',' :: ')' :: ',' :: (fieldChars fields ++ ')' :: xs)) =
          f'.1.toList ++ ['(', '#'] ++ (rest' ++ ',' :: ')' :: ',' :: (fieldChars fields' ++ ')' :: ys)) := by
        simpa [hrest, hrest'] using h
      have heq : f.1.toList = f'.1.toList := Ends.eq (a := ()) (b := ()) hname.ends hname'.ends hrow
      rw [heq] at h
      obtain ⟨hitem, hafter⟩ := hinj htree' (List.cons.inj (List.append_cancel_left h)).2
      obtain ⟨rfl, rfl⟩ := ih (fun f hf => hfields f (List.mem_cons_of_mem _ hf))
        (fun f hf => hfields' f (List.mem_cons_of_mem _ hf)) (by simpa using hafter)
      exact ⟨by rw [Prod.ext (String.toList_inj.mp heq) hitem], rfl⟩

/-- **A legible tree is told by its text**, and so is where the text ends. -/
theorem LegibleTree.chars_append_inj (ht : LegibleTree t) : ∀ {t' : Tree String} {xs ys : List Char}, LegibleTree t' →
    chars t ++ xs = chars t' ++ ys → t = t' ∧ xs = ys := by
  induction ht with
  | scalar s hs =>
    intro t' xs ys ht' h
    rw [chars_scalar] at h
    cases ht' with
    | scalar s' hs' =>
      rw [chars_scalar] at h
      have hrow := (List.cons.inj h).2
      have hkind := Ends.eq hs.ends hs'.ends hrow
      rw [hkind, List.append_assoc, List.append_assoc] at hrow
      have hfront := List.append_cancel_left hrow
      have hflag : s.isNull = s'.isNull := eq_of_flagChars_append_eq hfront
      rw [hflag] at hfront
      obtain ⟨hdefault, hafter⟩ := Literal.textOf_append_inj (List.append_cancel_left hfront)
      refine ⟨?_, (List.cons.inj hafter).2⟩
      rw [Scalar.fingerprint_eq_iff.mpr
        ⟨String.toList_inj.mp hkind, hflag, Literal.map_render_eq_of_textOf_eq hdefault⟩]
    | array ht' =>
      rw [chars_array] at h
      exact absurd (List.cons.inj h).2 (hs.ne_opening (.inl rfl))
    | object fields' =>
      rw [chars_object] at h
      exact absurd (List.cons.inj h).2 (hs.ne_opening (.inr rfl))
  | array ht ih =>
    intro t' xs ys ht' h
    rw [chars_array] at h
    cases ht' with
    | scalar s' hs' =>
      rw [chars_scalar] at h
      exact absurd (List.cons.inj h).2.symm (hs'.ne_opening (.inl rfl))
    | array ht' =>
      rw [chars_array] at h
      obtain ⟨rfl, hafter⟩ := ih ht' (List.append_cancel_left (List.cons.inj h).2)
      exact ⟨rfl, by simpa using hafter⟩
    | object fields' =>
      rw [chars_object] at h
      exact absurd (List.cons.inj (List.cons.inj h).2).1 (by decide)
  | object fields hnames hbelow ih =>
    intro t' xs ys ht' h
    rw [chars_object] at h
    cases ht' with
    | scalar s' hs' =>
      rw [chars_scalar] at h
      exact absurd (List.cons.inj h).2.symm (hs'.ne_opening (.inr rfl))
    | array ht' =>
      rw [chars_array] at h
      exact absurd (List.cons.inj (List.cons.inj h).2).1 (by decide)
    | object fields' hnames' hbelow' =>
      rw [chars_object] at h
      obtain ⟨rfl, rfl⟩ := fieldChars_append_inj fields (fun f hf => ⟨hnames f hf, hbelow f hf, ih f hf⟩)
        (fun f hf => ⟨hnames' f hf, hbelow' f hf⟩) (List.append_cancel_left (List.cons.inj h).2)
      exact ⟨rfl, rfl⟩

theorem LegibleTree.eq_of_text_eq (ht : LegibleTree t) (ht' : LegibleTree t')
    (h : t.text id = t'.text id) : t = t' := by
  have hchars : chars t ++ [] = chars t' ++ [] := by rw [chars, chars, h]
  exact (ht.chars_append_inj ht' hchars).1

end Sharing

/-! ### Items that can be read off their texts -/

/-- The kind of the item is legible, if it has one. -/
def Item.Legible : Item → Prop
  | .scalar s => LegibleKind s.kind.name
  | _ => True

instance : (x : Item) → Decidable x.Legible
  | .scalar s => inferInstanceAs (Decidable (LegibleKind s.kind.name))
  | .array _ => .isTrue trivial
  | .object _ => .isTrue trivial

namespace Graph

open Sharing (LegibleTree)

variable {g h g' h' : Graph} {i j : ItemId} {p q : PropertyId}

/-- What a node leads to has legible names and kinds. -/
structure Legible (g : Graph) (x : Node) : Prop where
  name : ∀ p, g.Leads x (.property p) → LegibleName (g.propertyName p)
  kind : ∀ i, g.Leads x (.item i) → (g.item i).Legible

theorem Legible.mono {x y : Node} (hx : g.Legible x) (hxy : g.Leads x y) : g.Legible y :=
  ⟨fun p hp => hx.name p (hxy.trans hp), fun i hi => hx.kind i (hxy.trans hi)⟩

theorem Sound.legible {x : Node} (hg : g.Sound) (hx : g.Present x)
    (hnames : ∀ n < g.properties.size, LegibleName (g.propertyName ⟨n⟩))
    (hkinds : ∀ n < g.items.size, (g.item ⟨n⟩).Legible) : g.Legible x :=
  ⟨fun p hp => hnames p.index (hg.present_of_leads hx hp), fun i hi => hkinds i.index (hg.present_of_leads hx hi)⟩

/-- The tree of fingerprints of an item with legible names and kinds. -/
theorem Sound.legibleTree_pattern (hg : g.Sound) (hi : g.Present (.item i)) (hlegible : g.Legible (.item i)) :
    LegibleTree (linked.pattern g (.item i)) := by
  obtain ⟨rank, hgraded⟩ := hg.exists_graded
  -- The induction is on the rank, which falls by two from an object to what its properties hold.
  induction hn : rank (.item i) using Nat.strong_induction_on generalizing i with
  | _ n ih =>
    have hnext : ∀ j, g.Leads (.item i) (.item j) → rank (.item j) < n → LegibleTree (linked.pattern g (.item j)) :=
      fun j hj hlt => ih _ hlt (hg.present_of_leads hi hj) (hlegible.mono hj) rfl
    rw [hg.pattern_eq hi, children_item, fingerprint]
    cases hitem : g.item i with
    | scalar s =>
      have hkind := hlegible.kind i .refl
      rw [hitem] at hkind
      exact .scalar s hkind
    | array e =>
      have hlink : g.Link (.item i) (.item e) := link_item_item_iff.mpr hitem
      exact .array (hnext e (.single hlink) (hn ▸ hgraded.lt hi hlink))
    | object o =>
      have hlink : ∀ p ∈ o.properties.elements, g.Link (.item i) (.property p) := fun p hp =>
        link_item_property_iff.mpr ⟨o, object?_eq_some_iff.mpr hitem, hp⟩
      have hbelow : ∀ p, g.Link (.property p) (.item (g.property p).item) := fun p => link_property_iff.mpr rfl
      have hfields : (Item.object o).children.map (linked.pattern g) =
          (o.properties.elements.map fun p => (g.propertyName p, linked.pattern g (.item (g.property p).item))).map
            fun f => Sharing.Tree.node f.1 [f.2] := by
        rw [Item.children, List.map_map, List.map_map]
        refine List.map_congr_left fun p hp => ?_
        exact hg.pattern_eq (hg.present hi (hlink p hp))
      rw [hfields]
      refine .object _ (fun f hf => ?_) fun f hf => ?_
      · obtain ⟨p, hp, rfl⟩ := List.mem_map.mp hf
        exact hlegible.name p (.single (hlink p hp))
      · obtain ⟨p, hp, rfl⟩ := List.mem_map.mp hf
        refine hnext _ (.tail (.single (hlink p hp)) (hbelow p)) (hn ▸ ?_)
        exact (hgraded.lt (hg.present hi (hlink p hp)) (hbelow p)).trans (hgraded.lt hi (hlink p hp))

/-- The tree of fingerprints of an item that was read. -/
theorem legibleTree_of_parseProperty {ctx : Shape.Context} {name : String} {data : Entries} (hg : g.Sound)
    (hp : g.parseProperty ctx name data = .ok (h, p)) (hi : h.Leads (.property p) (.item i))
    (hlegible : h.Legible (.item i)) : LegibleTree (linked.pattern h (.item i)) := by
  obtain ⟨hplanted, hloose, -⟩ := Schema.planted_parseProperty (.refl g) hp
  have hh := hplanted.sound hg
  exact hh.legibleTree_pattern (hh.present_of_leads hloose.new.present hi) hlegible

/-- **Items with legible names and kinds have one text exactly if they have one tree of fingerprints**, also if they were
read from different definitions into different graphs. -/
theorem text_eq_iff_pattern_eq {ctx ctx' : Shape.Context} {name name' : String} {data data' : Entries} (hg : g.Sound)
    (hh : h.Sound) (hp : g.parseProperty ctx name data = .ok (g', p)) (hq : h.parseProperty ctx' name' data' = .ok (h', q))
    (hi : g'.Leads (.property p) (.item i)) (hj : h'.Leads (.property q) (.item j)) (hlegible : g'.Legible (.item i))
    (hlegible' : h'.Legible (.item j)) :
    linked.text g' (.item i) = linked.text h' (.item j) ↔
      linked.pattern g' (.item i) = linked.pattern h' (.item j) := by
  rw [Sharing.Linked.text_eq_text_pattern, Sharing.Linked.text_eq_text_pattern]
  constructor
  · exact (legibleTree_of_parseProperty hg hp hi hlegible).eq_of_text_eq
      (legibleTree_of_parseProperty hh hq hj hlegible')
  · exact fun heq => by rw [heq]

/-- An address. -/
def address : Entries :=
  [(.text "type", .text "object"), (.text "properties", .mapping
    [(.text "city", .mapping (Schema.definition "string")), (.text "zip", .mapping (Schema.definition "string"))])]

/-- An address with one property, the name of which reads like what is in an address between two of its names. -/
def addressInOne : Entries :=
  [(.text "type", .text "object"), (.text "properties", .mapping
    [(.text "city(#string,true,(),),zip", .mapping (Schema.definition "string"))])]

/-- A graph with an address read into it. -/
def withAddress (g : Graph) (data : Entries) : Graph × PropertyId :=
  (g.parseProperty {} "address" data).toOption.getD default

/-- Addresses that are read one after the other are told by their texts, which are equal. -/
theorem addresses_are_told_by_texts :
    linked.text (withAddress {} address).1 (.item ⟨2⟩) =
        linked.text (withAddress (withAddress {} address).1 address).1 (.item ⟨5⟩) ∧
      linked.pattern (withAddress {} address).1 (.item ⟨2⟩) =
        linked.pattern (withAddress (withAddress {} address).1 address).1 (.item ⟨5⟩) := by
  have hp : parseProperty {} {} "address" address = .ok (withAddress {} address) :=
    eq_ok_of_isSome_toOption (by decide +kernel)
  have hq : (withAddress {} address).1.parseProperty {} "address" address =
      .ok (withAddress (withAddress {} address).1 address) :=
    eq_ok_of_isSome_toOption (by decide +kernel)
  have hg := (Schema.planted_parseProperty (.refl _) hp).1.sound sound_empty
  have hh := (Schema.planted_parseProperty (.refl _) hq).1.sound hg
  have htext : linked.text (withAddress {} address).1 (.item ⟨2⟩) =
      linked.text (withAddress (withAddress {} address).1 address).1 (.item ⟨5⟩) := by decide +kernel
  refine ⟨htext, (text_eq_iff_pattern_eq sound_empty hg hp hq ?_ ?_ ?_ ?_).mp htext⟩
  · exact .single (link_property_iff.mpr (by decide +kernel))
  · exact .single (link_property_iff.mpr (by decide +kernel))
  · exact hg.legible (show 2 < _ by decide +kernel) (by decide +kernel) (by decide +kernel)
  · exact hh.legible (show 5 < _ by decide +kernel) (by decide +kernel) (by decide +kernel)

/-- An address has two properties and an address in one has one, but their items have one text. -/
theorem addresses_have_one_text :
    ∃ g p h q, parseProperty {} {} "address" address = .ok (g, p) ∧
      parseProperty {} {} "address" addressInOne = .ok (h, q) ∧
      linked.text g (.item (g.property p).item) = linked.text h (.item (h.property q).item) ∧
      linked.pattern g (.item (g.property p).item) ≠ linked.pattern h (.item (h.property q).item) := by
  have hp : parseProperty {} {} "address" address = .ok (withAddress {} address) :=
    eq_ok_of_isSome_toOption (by decide +kernel)
  have hq : parseProperty {} {} "address" addressInOne = .ok (withAddress {} addressInOne) :=
    eq_ok_of_isSome_toOption (by decide +kernel)
  refine ⟨_, _, _, _, hp, hq, by decide +kernel, fun heq => ?_⟩
  have hchildren := congrArg (fun t => t.children.length) heq
  exact absurd hchildren (by decide +kernel)

end Graph

end Schemata
