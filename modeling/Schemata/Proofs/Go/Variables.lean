import Schemata.Go.Declaration
import Schemata.Proofs.Casing
import Schemata.Proofs.Go.Loops

/-!
# Variables of accessors

An accessor declares its receiver, its argument if it is a setter, the sequence that it returns if it is a getter that
copies, and an index for every loop. The receiver is named by the object and the argument by the property, the others are
fixed, and nothing keeps one kind apart from another.

The variables are read off a method: those of the signature stand in brackets, each before a blank, and those of the body
before the sign of an assignment that declares (`Method.variableNames`). Names in camel case have no bracket, blank or line
end, so nothing else is taken for one. The names that are found are identifiers of Go, and differ from each other, under
conditions that can be read off the names alone (`accessors_areHygienic_iff`): only keywords are lengthened, and the letters
for indices come to an end behind `z`.
-/

namespace Schemata

namespace Go

/-! ### Identifiers -/

/-- The letters and digits that identifiers are written with. In ASCII these are known; of the other characters it is left
open which are among them. -/
structure Alphabet where
  /-- Whether a character counts as a letter. -/
  isLetter : Char → Bool
  /-- Whether a character counts as a digit. -/
  isDigit : Char → Bool
  /-- The letters of ASCII, with the underscore. -/
  isLetter_eq : ∀ c : Char, c.toNat < 0x80 → isLetter c = (c.isAlpha || c == '_')
  /-- The digits of ASCII. -/
  isDigit_eq : ∀ c : Char, c.toNat < 0x80 → isDigit c = c.isDigit

namespace Alphabet

variable (alphabet : Alphabet)

/-- A name is spelled with letters and digits, and begins with a letter. -/
def Spells (name : String) : Prop :=
  ∃ c cs, name.toList = c :: cs ∧ alphabet.isLetter c = true ∧
    ∀ d ∈ cs, alphabet.isLetter d = true ∨ alphabet.isDigit d = true

/-- An identifier is a name that is no keyword. -/
def IsIdentifier (name : String) : Prop :=
  alphabet.Spells name ∧ name ∉ Naming.keywords

/-- Variables do not get in each other's way if they are different identifiers. -/
def AreHygienic (names : List String) : Prop :=
  names.Nodup ∧ ∀ name ∈ names, alphabet.IsIdentifier name

end Alphabet

end Go

/-- No variable is named by a keyword: what keywords are lengthened by ends none of them. -/
theorem Naming.variableName_notMem_keywords (name : String) : variableName name ∉ keywords := by
  have hlonger : ∀ keyword ∈ keywords, keyword ++ "Object" ∉ keywords := by decide +kernel
  rw [variableName]
  split_ifs with hkeyword
  · exact hlonger _ (List.contains_iff_mem.mp hkeyword)
  · exact fun hmem => hkeyword (List.contains_iff_mem.mpr hmem)

namespace Go

theorem Alphabet.isIdentifier_variableName_iff (alphabet : Alphabet) (name : String) :
    alphabet.IsIdentifier (Naming.variableName name) ↔ alphabet.Spells (Naming.variableName name) :=
  and_iff_left (Naming.variableName_notMem_keywords name)

/-! ### Reading variables -/

/-- The variable that a statement declares, if it declares one. -/
def declared? (statement : List Char) : Option String :=
  match statement.dropWhile (· ≠ ' ') with
  | ' ' :: ':' :: '=' :: ' ' :: _ => some (String.ofList (statement.takeWhile (· ≠ ' ')))
  | _ => none

/-- The variable that a line declares, be it by a statement or by a loop. -/
def lineVariable? (line : List Char) : Option String :=
  match line.dropWhile (· = '\t') with
  | 'f' :: 'o' :: 'r' :: ' ' :: statement => declared? statement
  | statement => declared? statement

/-- The variables that the lines of a body declare. -/
def bodyVariables (body : String) : List String :=
  (body.toList.splitOn '\n').filterMap lineVariable?

/-- The variable in front of its type, if there is one before the bracket closes. -/
def bracketVariables : List Char → List String
  | ')' :: _ => []
  | text => [String.ofList (text.takeWhile (· ≠ ' '))]

/-- The variables of a signature: the receiver, and what is in the brackets behind the name of the method. -/
def signatureVariables (signature : String) : List String :=
  match signature.toList with
  | 'f' :: 'u' :: 'n' :: 'c' :: ' ' :: '(' :: text =>
    let behind := (text.dropWhile (· ≠ ')')).drop 1
    bracketVariables text ++ bracketVariables ((behind.dropWhile (· ≠ '(')).drop 1)
  | _ => []

/-- A method. -/
structure Method where
  /-- What stands before its body: receiver, name, argument and type. -/
  signature : String
  /-- What it does. -/
  body : String

namespace Method

/-- The text of a method. -/
def text (x : Method) : String :=
  x.signature ++ " \x7b\n" ++ x.body ++ "\n\x7d"

/-- The variables that a method declares. -/
def variableNames (x : Method) : List String :=
  signatureVariables x.signature ++ bodyVariables x.body

end Method

/-! ### Words -/

/-- A text without blanks, tabs and line ends. -/
structure IsWord (word : String) : Prop where
  /-- There is no blank in it. -/
  blank : ' ' ∉ word.toList
  /-- There is no tab in it. -/
  tab : '\t' ∉ word.toList
  /-- There is no line end in it. -/
  lineEnd : '\n' ∉ word.toList

instance (word : String) : Decidable (IsWord word) :=
  decidable_of_iff (' ' ∉ word.toList ∧ '\t' ∉ word.toList ∧ '\n' ∉ word.toList)
    ⟨fun ⟨hblank, htab, hlineEnd⟩ => ⟨hblank, htab, hlineEnd⟩, fun h => ⟨h.blank, h.tab, h.lineEnd⟩⟩

theorem IsWord.append {w v : String} (hw : IsWord w) (hv : IsWord v) : IsWord (w ++ v) := by
  constructor <;> rw [String.toList_append, List.mem_append, not_or]
  · exact ⟨hw.blank, hv.blank⟩
  · exact ⟨hw.tab, hv.tab⟩
  · exact ⟨hw.lineEnd, hv.lineEnd⟩

theorem isWord_of_forall_isSign {w : String} (hw : ∀ d, Text.IsSign d → d ∉ w.toList) : IsWord w where
  blank := hw _ (by decide +kernel)
  tab := hw _ (by decide +kernel)
  lineEnd := hw _ (by decide +kernel)

theorem isWord_goName (path segment : String) : IsWord (Naming.goName path segment) :=
  isWord_of_forall_isSign fun _ hd => Text.notMem_upperCamel hd _

/-- A name of a variable has no sign. -/
theorem notMem_variableName {d : Char} (hd : Text.IsSign d) (name : String) : d ∉ (Naming.variableName name).toList := by
  have hcandidate := Text.notMem_lowerCamel hd (Naming.underscored name)
  rw [Naming.variableName]
  split_ifs
  · rw [String.toList_append, List.mem_append, not_or]
    refine ⟨hcandidate, fun hmem => ?_⟩
    have hletters : ∀ n ∈ "Object".toList.map Char.toNat, 'A'.toNat ≤ n := by decide
    exact absurd hd.2.1 (Nat.not_lt_of_le (hletters _ (List.mem_map_of_mem hmem)))
  · exact hcandidate

theorem isWord_variableName (name : String) : IsWord (Naming.variableName name) :=
  isWord_of_forall_isSign fun _ hd => notMem_variableName hd _

theorem le_toNat_indexVariable (depth : ℕ) : 'i'.toNat ≤ (indexVariable depth).toNat := by
  have hvalid : ∀ offset, (min ('i'.toNat + offset) 0xFF).isValidChar := fun offset =>
    .inl (Nat.lt_of_le_of_lt (Nat.min_le_right _ _) (by decide))
  rw [indexVariable, Text.toNat_ofNat (hvalid _)]
  exact Nat.le_min.mpr ⟨Nat.le_add_right _ _, by decide⟩

theorem isWord_indexVariable (depth : ℕ) : IsWord (String.singleton (indexVariable depth)) := by
  refine isWord_of_forall_isSign fun d hd hmem => ?_
  rw [String.toList_singleton, List.mem_singleton] at hmem
  have hlow : (indexVariable depth).toNat < 'A'.toNat := hmem ▸ hd.2.1
  exact absurd (le_toNat_indexVariable depth) (Nat.not_le_of_lt (hlow.trans (by decide)))

/-- The indices behind an expression. -/
theorem isWord_indices (n : ℕ) :
    IsWord (String.join ((List.range n).map fun j => "[" ++ String.singleton (indexVariable (j + 1)) ++ "]")) := by
  induction n with
  | zero => decide
  | succ n ih =>
    have hindex : IsWord ("[" ++ String.singleton (indexVariable (n + 1)) ++ "]") :=
      (IsWord.append (by decide) (isWord_indexVariable _)).append (by decide)
    rw [List.range_succ, List.map_append, String.join_append, List.map_singleton, String.join_cons, String.join_nil,
      String.append_empty]
    exact ih.append hindex

theorem IsWord.indexedBy {w : String} (hw : IsWord w) (n : ℕ) : IsWord (indexedBy w n) :=
  hw.append (isWord_indices n)

/-! ### Reading lines -/

theorem dropWhile_indent (depth : ℕ) (text : List Char) :
    ((indent depth).toList ++ text).dropWhile (· = '\t') = text.dropWhile (· = '\t') := by
  have htabs : ∀ c ∈ (indent depth).toList, decide (c = '\t') = true := by
    intro c hc
    rw [indent, String.toList_ofList] at hc
    exact decide_eq_true (List.eq_of_mem_replicate hc)
  rw [List.dropWhile_append_of_pos htabs]

/-- What stands before the first blank of a statement is declared if the sign for that comes next. -/
theorem declared?_word {w : String} (hw : ' ' ∉ w.toList) (rest : List Char) :
    declared? (w.toList ++ ' ' :: rest) = match rest with
      | ':' :: '=' :: ' ' :: _ => some w
      | _ => none := by
  rw [declared?, Text.dropWhile_ne_append hw, Text.takeWhile_ne_append hw, String.ofList_toList]
  split
  · next heq =>
    obtain rfl := (List.cons.inj heq).2
    rfl
  · next hnot =>
    split
    · next tail => exact absurd rfl (hnot tail)
    · rfl

/-- A word that a statement begins with, and that is not the word for loops. -/
structure IsTarget (w : String) : Prop where
  /-- There is no blank in it. -/
  isWord : IsWord w
  /-- The word for loops is spelled without one of its characters. -/
  exists_notMem : ∃ c ∈ w.toList, c ∉ "for".toList

theorem IsTarget.append {w v : String} (hw : IsTarget w) (hv : IsWord v) : IsTarget (w ++ v) where
  isWord := hw.isWord.append hv
  exists_notMem := by
    obtain ⟨c, hc, hnot⟩ := hw.exists_notMem
    exact ⟨c, String.toList_append ▸ List.mem_append_left _ hc, hnot⟩

theorem lineVariable?_word {w : String} (hw : IsTarget w) (depth : ℕ) (rest : List Char) :
    lineVariable? ((indent depth).toList ++ (w.toList ++ ' ' :: rest)) = declared? (w.toList ++ ' ' :: rest) := by
  obtain ⟨d, hd, hnot⟩ := hw.exists_notMem
  have hdrop : (w.toList ++ ' ' :: rest).dropWhile (· = '\t') = w.toList ++ ' ' :: rest := by
    obtain ⟨c, cs, hcs⟩ := List.exists_cons_of_ne_nil (List.ne_nil_of_mem hd)
    have hc : c ≠ '\t' := by
      rintro rfl
      exact hw.isWord.tab (hcs ▸ List.mem_cons_self)
    rw [hcs, List.cons_append, List.dropWhile_cons_of_neg (by simpa using hc)]
  rw [lineVariable?, dropWhile_indent, hdrop]
  split
  · next statement heq =>
    have htake := congrArg (List.takeWhile (· ≠ ' ')) heq
    rw [Text.takeWhile_ne_append hw.isWord.blank] at htake
    have hfor : w.toList = "for".toList := htake
    exact absurd (hfor ▸ hd) hnot
  · rfl

theorem lineVariable?_for (depth : ℕ) (statement : List Char) :
    lineVariable? ((indent depth).toList ++ ('f' :: 'o' :: 'r' :: ' ' :: statement)) = declared? statement := by
  rw [lineVariable?, dropWhile_indent]
  rfl

theorem bodyVariables_intercalate {lines : List String} (hne : lines ≠ []) (hlines : ∀ line ∈ lines, '\n' ∉ line.toList) :
    bodyVariables ("\n".intercalate lines) = lines.filterMap fun line => lineVariable? line.toList := by
  have hsplit : ("\n".intercalate lines).toList.splitOn '\n' = lines.map String.toList := by
    rw [String.toList_intercalate]
    refine List.splitOn_intercalate '\n' ?_ (by simpa using hne)
    rintro text htext
    obtain ⟨line, hline, rfl⟩ := List.mem_map.mp htext
    exact hlines line hline
  rw [bodyVariables, hsplit, List.filterMap_map]
  rfl

/-! ### Reading loops -/

theorem IsTarget.indexedBy {w : String} (hw : IsTarget w) (n : ℕ) : IsTarget (indexedBy w n) :=
  hw.append (isWord_indices n)

/-- The index variables of the first `n` loops. -/
def indexNames (n : ℕ) : List String :=
  (List.range n).map fun j => String.singleton (indexVariable (j + 1))

section Targets

variable {w : String} (hw : IsTarget w) (depth : ℕ) (rest : List Char)

include hw

theorem lineVariable?_assign :
    lineVariable? ((indent depth).toList ++ ((w ++ " =").toList ++ ' ' :: rest)) = none := by
  have hchars : (w ++ " =").toList ++ ' ' :: rest = w.toList ++ ' ' :: '=' :: ' ' :: rest := by simp
  rw [hchars, lineVariable?_word hw, declared?_word hw.isWord.blank]
  rfl

theorem lineVariable?_declare :
    lineVariable? ((indent depth).toList ++ ((w ++ " :=").toList ++ ' ' :: rest)) = some w := by
  have hchars : (w ++ " :=").toList ++ ' ' :: rest = w.toList ++ ' ' :: ':' :: '=' :: ' ' :: rest := by simp
  rw [hchars, lineVariable?_word hw, declared?_word hw.isWord.blank]
  rfl

end Targets

section Loops

variable {target type sequence : ℕ → String} {statement : String} {k : ℕ}

theorem filterMap_openingLines {target type sequence : String} {depth : ℕ} {found : Option String}
    (htarget : ∀ rest, lineVariable? ((indent depth).toList ++ (target.toList ++ ' ' :: rest)) = found) :
    ((openingLines target type sequence depth).filterMap fun line => lineVariable? line.toList) =
      found.toList ++ [String.singleton (indexVariable depth)] := by
  have hmake : lineVariable? (indent depth ++ target ++ " make(" ++ type ++ ", len(" ++ sequence ++ "))").toList = found := by
    have hchars : (indent depth ++ target ++ " make(" ++ type ++ ", len(" ++ sequence ++ "))").toList =
        (indent depth).toList ++ (target.toList ++ ' ' :: ("make(" ++ type ++ ", len(" ++ sequence ++ "))").toList) := by
      simp
    rw [hchars, htarget]
  have hfor : lineVariable?
      (indent depth ++ "for " ++ String.singleton (indexVariable depth) ++ " := range " ++ sequence ++ " \x7b").toList =
        some (String.singleton (indexVariable depth)) := by
    have hchars : (indent depth ++ "for " ++ String.singleton (indexVariable depth) ++ " := range " ++ sequence ++
        " \x7b").toList = (indent depth).toList ++ ('f' :: 'o' :: 'r' :: ' ' ::
          ((String.singleton (indexVariable depth)).toList ++ ' ' :: (":= range " ++ sequence ++ " \x7b").toList)) := by
      simp
    rw [hchars, lineVariable?_for, declared?_word (isWord_indexVariable depth).blank]
    simp
  rw [openingLines, List.filterMap_cons, hmake, List.filterMap_cons, hfor, List.filterMap_nil]
  cases found <;> rfl

theorem lineVariable?_closing (depth : ℕ) : lineVariable? (indent depth ++ "\x7d").toList = none := by
  rw [String.toList_append, lineVariable?, dropWhile_indent]
  rfl

/-- Loops declare their indices, and what the lines before them declare. -/
theorem filterMap_loopLines (found : ℕ → Option String)
    (htarget : ∀ j rest, lineVariable? ((indent (j + 1)).toList ++ ((target j).toList ++ ' ' :: rest)) = found j)
    (hstatement : lineVariable? (indent (k + 1) ++ statement).toList = none) :
    ((loopLines target type sequence statement 0 k).filterMap fun line => lineVariable? line.toList) =
      (List.range k).flatMap fun j => (found j).toList ++ [String.singleton (indexVariable (j + 1))] := by
  have hopening : ∀ j, ((openingLines (target j) (type j) (sequence j) (j + 1)).filterMap fun line =>
      lineVariable? line.toList) = (found j).toList ++ [String.singleton (indexVariable (j + 1))] :=
    fun j => filterMap_openingLines (htarget j)
  have hclosing : (((List.range' 0 k).reverse.map fun j => indent (j + 1) ++ "\x7d").filterMap fun line =>
      lineVariable? line.toList) = [] := by
    rw [List.filterMap_eq_nil_iff]
    intro line hline
    obtain ⟨j, -, rfl⟩ := List.mem_map.mp hline
    exact lineVariable?_closing _
  rw [loopLines, Nat.zero_add, List.filterMap_append, List.filterMap_append, List.filterMap_flatMap, hclosing,
    List.filterMap_cons, hstatement, List.filterMap_nil, List.append_nil, List.append_nil, List.range_eq_range']
  exact congrArg (List.flatMap · _) (funext hopening)

theorem lineEnd_notMem_indent (depth : ℕ) : '\n' ∉ (indent depth).toList := by
  rw [indent, String.toList_ofList]
  exact fun hmem => absurd (List.eq_of_mem_replicate hmem) (by decide)

theorem lineEnd_notMem_of_mem_loopLines (htarget : ∀ j, '\n' ∉ (target j).toList) (htype : ∀ j, '\n' ∉ (type j).toList)
    (hsequence : ∀ j, '\n' ∉ (sequence j).toList) (hstatement : '\n' ∉ statement.toList) :
    ∀ line ∈ loopLines target type sequence statement 0 k, '\n' ∉ line.toList := by
  have hindex : ∀ depth, '\n' ≠ indexVariable depth := fun depth heq =>
    (isWord_indexVariable depth).lineEnd (by rw [String.toList_singleton, heq]; exact List.mem_singleton_self _)
  intro line hline
  rw [loopLines, List.mem_append, List.mem_append, List.mem_flatMap, List.mem_singleton, List.mem_map] at hline
  rcases hline with (⟨j, -, hline⟩ | rfl) | ⟨j, -, rfl⟩
  · rw [openingLines, List.mem_pair] at hline
    rcases hline with rfl | rfl
    · simp [lineEnd_notMem_indent, htarget j, htype j, hsequence j]
    · simp [lineEnd_notMem_indent, hindex, hsequence j]
  · simp [lineEnd_notMem_indent, hstatement]
  · simp [lineEnd_notMem_indent]

end Loops

/-! ### Reading bodies -/

theorem mem_of_mem_withoutBrackets {n : ℕ} {text : List Char} {c : Char} (hc : c ∈ withoutBrackets n text) : c ∈ text := by
  fun_induction withoutBrackets n text with
  | case1 n rest ih => exact List.mem_cons_of_mem _ (List.mem_cons_of_mem _ (ih hc))
  | case2 => exact hc

theorem lineEnd_notMem_elementType_nested {type : Form → String}
    (htype : ∀ element, type (.list element) = "[]" ++ type element) {base : Form} (hbase : '\n' ∉ (type base).toList)
    (n k : ℕ) : '\n' ∉ (elementType n (type (base.nested k))).toList := by
  have hnested : '\n' ∉ (type (base.nested k)).toList := by
    induction k with
    | zero => exact hbase
    | succ k ih =>
      rw [Form.nested, htype, String.toList_append, List.mem_append, not_or]
      exact ⟨by decide, ih⟩
  rw [elementType, String.toList_ofList]
  exact fun hmem => hnested (mem_of_mem_withoutBrackets hmem)

/-- The number of loops in the accessors of a form: one for each of the sequences around an object with properties. -/
def Form.loops : Form → ℕ
  | .list element => if element.containsObject then element.loops + 1 else 0
  | _ => 0

theorem Form.loops_of_containsObject_eq_false {form : Form} (hform : form.containsObject = false) : form.loops = 0 := by
  cases form with
  | list element =>
    have helement : element.containsObject = false := hform
    rw [loops, helement]
    rfl
  | scalar | record => rfl

theorem Form.loops_nested {name : RecordName} (hname : name.isEmpty = false) (k : ℕ) :
    ((Form.record name).nested k).loops = k := by
  induction k with
  | zero => rfl
  | succ k ih => rw [nested, loops, if_pos (containsObject_nested_record hname k), ih]

/-- A form is copied only if it is made of sequences around an object with properties. -/
theorem Form.exists_nested {form : Form} (hform : form.containsObject = true) :
    ∃ name k, name.isEmpty = false ∧ form = (Form.record name).nested k := by
  induction form with
  | scalar => exact nomatch hform
  | list element ih =>
    obtain ⟨name, k, hname, rfl⟩ := ih hform
    exact ⟨name, k + 1, hname, rfl⟩
  | record name => exact ⟨name, 0, by simpa [containsObject] using hform, rfl⟩

theorem bodyVariables_line {line : String} (hline : '\n' ∉ line.toList) :
    bodyVariables line = (lineVariable? line.toList).toList := by
  rw [bodyVariables, List.splitOn_eq_singleton hline]
  cases hfound : lineVariable? line.toList <;> simp [hfound]

section Bodies

variable {stored shown : String} (suffix : String)

theorem isWord_name (name : RecordName) : IsWord (name.name suffix) :=
  isWord_goName _ _

theorem lineEnd_notMem_goType (name : RecordName) : '\n' ∉ ((Form.record name).goType suffix).toList := by
  rw [Form.goType, RecordName.goType]
  split_ifs
  · decide
  · exact (IsWord.append (by decide) (isWord_name suffix name)).lineEnd

theorem lineEnd_notMem_interfaceType (name : RecordName) : '\n' ∉ ((Form.record name).interfaceType suffix).toList := by
  rw [Form.interfaceType, RecordName.interfaceType]
  split_ifs
  · decide
  · exact (IsWord.append (by decide) (isWord_name suffix name)).lineEnd

theorem bodyVariables_return (hstored : IsWord stored) : bodyVariables (indent 1 ++ "return " ++ stored) = [] := by
  have hreturn : IsTarget "return" := ⟨by decide, 'e', by decide, by decide⟩
  have hchars : (indent 1 ++ "return " ++ stored).toList = (indent 1).toList ++ ("return".toList ++ ' ' :: stored.toList) := by
    simp
  have hline : '\n' ∉ (indent 1 ++ "return " ++ stored).toList := by
    simp [lineEnd_notMem_indent, hstored.lineEnd]
  rw [bodyVariables_line hline, hchars, lineVariable?_word hreturn, declared?_word (by decide)]
  split
  · next rest heq => exact absurd (heq ▸ by simp) hstored.blank
  · rfl

/-- The lines of a setter that copies are read one by one: only the loops declare something. -/
theorem bodyVariables_setter_nested {name : RecordName} (hname : name.isEmpty = false) (k : ℕ) (hstored : IsTarget stored)
    (hshown : IsWord shown) :
    bodyVariables (((Form.record name).nested k).setter suffix stored shown 1) = indexNames k := by
  have htarget (j : ℕ) := hstored.indexedBy j
  have hstoredBy (j : ℕ) := (htarget j).isWord.lineEnd
  have hshownBy (j : ℕ) := (hshown.indexedBy j).lineEnd
  have hpointer := (isWord_name suffix name).lineEnd
  rw [setter_nested hname, bodyVariables_intercalate (loopLines_ne_nil _ _)
      (lineEnd_notMem_of_mem_loopLines (fun j => by simp [hstoredBy j])
        (fun j => lineEnd_notMem_elementType_nested (fun _ => rfl) (lineEnd_notMem_goType suffix name) _ _) hshownBy
        (by simp [hstoredBy k, hshownBy k, hpointer])),
    filterMap_loopLines (fun _ => none) (fun j rest => lineVariable?_assign (htarget j) _ _)]
  · rw [indexNames, List.map_eq_flatMap]
    rfl
  · -- The element is asserted to be a pointer, so a comma stands behind the target.
    have hcomma : IsTarget (indexedBy stored k ++ ",") := (htarget k).append (by decide)
    have hchars : (indent (k + 1) ++
        (indexedBy stored k ++ ", _ = " ++ indexedBy shown k ++ ".(*" ++ name.name suffix ++ ")")).toList =
          (indent (k + 1)).toList ++ ((indexedBy stored k ++ ",").toList ++ ' ' ::
            '_' :: (" = " ++ indexedBy shown k ++ ".(*" ++ name.name suffix ++ ")").toList) := by
      simp
    rw [hchars, lineVariable?_word hcomma, declared?_word hcomma.isWord.blank]
    rfl

/-- A setter declares the indices of its loops. -/
theorem bodyVariables_setter (form : Form) (hstored : IsTarget stored) (hshown : IsWord shown) :
    bodyVariables (form.setter suffix stored shown 1) = indexNames form.loops := by
  cases hform : form.containsObject with
  | false =>
    have hchars : (indent 1 ++ stored ++ " = " ++ shown).toList =
        (indent 1).toList ++ ((stored ++ " =").toList ++ ' ' :: shown.toList) := by simp
    have hline : '\n' ∉ (indent 1 ++ stored ++ " = " ++ shown).toList := by
      simp [lineEnd_notMem_indent, hstored.isWord.lineEnd, hshown.lineEnd]
    rw [Form.setter_of_containsObject_eq_false hform, Form.loops_of_containsObject_eq_false hform, bodyVariables_line hline,
      hchars, lineVariable?_assign hstored]
    rfl
  | true =>
    obtain ⟨name, k, hname, rfl⟩ := Form.exists_nested hform
    rw [bodyVariables_setter_nested suffix hname k hstored hshown, Form.loops_nested hname]

/-- The lines of a getter that copies are read one by one: the first one declares the sequence that is returned, and the
loops declare their indices. -/
theorem bodyVariables_getter_nested {name : RecordName} (hname : name.isEmpty = false) (k : ℕ) (hstored : IsTarget stored) :
    bodyVariables (((Form.record name).nested (k + 1)).getter suffix stored "result" 1) =
      "result" :: indexNames (k + 1) := by
  have hresult : IsTarget "result" := ⟨by decide, 'e', by decide, by decide⟩
  have htarget (j : ℕ) := hresult.indexedBy j
  have hresultBy (j : ℕ) := (htarget j).isWord.lineEnd
  have hstoredBy (j : ℕ) := (hstored.indexedBy j).isWord.lineEnd
  have hlines : ∀ line ∈ loopLines (fun j => indexedBy "result" j ++ if j = 0 then " :=" else " =")
      (fun j => elementType j (((Form.record name).nested (k + 1)).interfaceType suffix)) (indexedBy stored)
      (indexedBy "result" (k + 1) ++ " = " ++ indexedBy stored (k + 1)) 0 (k + 1), '\n' ∉ line.toList :=
    lineEnd_notMem_of_mem_loopLines (fun j => by split_ifs <;> simp [hresultBy j])
      (fun j => lineEnd_notMem_elementType_nested (fun _ => rfl) (lineEnd_notMem_interfaceType suffix name) j (k + 1)) hstoredBy
      (by simp [hresultBy (k + 1), hstoredBy (k + 1)])
  have hreturn : '\n' ∉ (indent 1 ++ "return " ++ "result").toList := by decide
  rw [getter_nested hname,
    bodyVariables_intercalate (by simp) (List.forall_mem_append.mpr ⟨hlines, List.forall_mem_singleton.mpr hreturn⟩),
    List.filterMap_append, filterMap_loopLines fun j => if j = 0 then some "result" else none]
  · have hnone : lineVariable? (indent 1 ++ "return " ++ "result").toList = none := rfl
    rw [List.range_succ_eq_map, List.flatMap_cons, List.flatMap_map, List.filterMap_cons, hnone, List.filterMap_nil,
      List.append_nil, indexNames, List.range_succ_eq_map, List.map_cons, List.map_map, List.map_eq_flatMap]
    rfl
  · intro j rest
    split_ifs with hj
    · -- Only the outermost sequence is declared.
      subst hj
      rw [indexedBy_zero]
      exact lineVariable?_declare hresult 1 rest
    · exact lineVariable?_assign (htarget j) _ _
  · have hchars : (indent (k + 1 + 1) ++ (indexedBy "result" (k + 1) ++ " = " ++ indexedBy stored (k + 1))).toList =
        (indent (k + 1 + 1)).toList ++ ((indexedBy "result" (k + 1) ++ " =").toList ++ ' ' ::
          (indexedBy stored (k + 1)).toList) := by simp
    rw [hchars, lineVariable?_assign (htarget (k + 1))]

/-- A getter declares the sequence that it returns, if it copies one, and the indices of its loops. -/
theorem bodyVariables_getter (form : Form) (hstored : IsTarget stored) :
    bodyVariables (form.getter suffix stored "result" 1) =
      if form.loops = 0 then [] else "result" :: indexNames form.loops := by
  cases hform : form.containsObject with
  | false =>
    rw [Form.getter_of_containsObject_eq_false hform, Form.loops_of_containsObject_eq_false hform, if_pos rfl]
    exact bodyVariables_return hstored.isWord
  | true =>
    obtain ⟨name, k, hname, rfl⟩ := Form.exists_nested hform
    cases k with
    | zero => exact bodyVariables_return hstored.isWord
    | succ k =>
      rw [bodyVariables_getter_nested suffix hname k hstored, Form.loops_nested hname, if_neg (Nat.succ_ne_zero k)]

end Bodies

/-! ### Reading signatures -/

/-- A name before its type is read up to the blank. -/
theorem bracketVariables_word {w : String} (hblank : ' ' ∉ w.toList) (hclose : ')' ∉ w.toList) (rest : List Char) :
    bracketVariables (w.toList ++ ' ' :: rest) = [w] := by
  rw [bracketVariables]
  · rw [Text.takeWhile_ne_append hblank, String.ofList_toList]
  · intro tail heq
    cases hw : w.toList with
    | nil => simp [hw] at heq
    | cons c cs =>
      rw [hw, List.cons_append] at heq
      exact hclose (hw ▸ (List.cons.inj heq).1 ▸ List.mem_cons_self)

theorem signatureVariables_eq {receiver type name : String} (hblank : ' ' ∉ receiver.toList)
    (hreceiver : ')' ∉ receiver.toList) (htype : ')' ∉ type.toList) (hname : '(' ∉ name.toList) (rest : String) :
    signatureVariables ("func (" ++ receiver ++ " " ++ type ++ ") " ++ (name ++ "(" ++ rest)) =
      receiver :: bracketVariables rest.toList := by
  have hchars : ("func (" ++ receiver ++ " " ++ type ++ ") " ++ (name ++ "(" ++ rest)).toList =
      'f' :: 'u' :: 'n' :: 'c' :: ' ' :: '(' ::
        (receiver.toList ++ ' ' :: (type.toList ++ ')' :: ' ' :: (name.toList ++ '(' :: rest.toList))) := by
    simp
  have hclose : ')' ∉ receiver.toList ++ ' ' :: type.toList := by
    simp [hreceiver, htype]
  have hopen : '(' ∉ ' ' :: name.toList := by
    simp [hname]
  rw [signatureVariables, hchars]
  simp only
  rw [bracketVariables_word hblank hreceiver, ← List.cons_append, ← List.append_assoc, Text.dropWhile_ne_append hclose,
    List.drop_succ_cons, List.drop_zero, ← List.cons_append, Text.dropWhile_ne_append hopen, List.drop_succ_cons,
    List.drop_zero]
  rfl

namespace Record

/-- The getter of a member. -/
def getterOf (r : Record) (interfaceSuffix typeSuffix : String) (m : Member) : Method where
  signature := "func (" ++ r.receiver typeSuffix ++ " " ++ r.name.goType typeSuffix ++ ") " ++ m.getterHeader interfaceSuffix
  body := m.form.getter interfaceSuffix (r.receiver typeSuffix ++ "." ++ m.goName) "result" 1

/-- The setter of a member. -/
def setterOf (r : Record) (interfaceSuffix typeSuffix : String) (m : Member) : Method where
  signature :=
    "func (" ++ r.receiver typeSuffix ++ " " ++ r.name.goType typeSuffix ++ ") " ++ m.setterHeader interfaceSuffix true
  body := m.form.setter typeSuffix (r.receiver typeSuffix ++ "." ++ m.goName) (Naming.variableName m.name) 1

variable (r : Record) (interfaceSuffix typeSuffix : String) (m : Member)

theorem methods_eq :
    r.methods interfaceSuffix typeSuffix m =
      [(r.getterOf interfaceSuffix typeSuffix m).text, (r.setterOf interfaceSuffix typeSuffix m).text] := by
  simp only [methods, Member.getter, Member.setter, Method.text, getterOf, setterOf, String.append_assoc]

theorem bracket_notMem_goType : ')' ∉ (r.name.goType typeSuffix).toList := by
  rw [RecordName.goType]
  split_ifs
  · decide
  · rw [String.toList_append, List.mem_append, not_or]
    exact ⟨by decide, Text.notMem_upperCamel (by decide +kernel) _⟩

theorem isTarget_field : IsTarget (r.receiver typeSuffix ++ "." ++ m.goName) where
  isWord := ((isWord_variableName _).append (by decide)).append (isWord_goName _ _)
  exists_notMem := ⟨'.', by simp, by decide⟩

/-- A method of a record declares the receiver, and what stands behind the first bracket of its header. -/
theorem signatureVariables_method (path segment rest : String) :
    signatureVariables ("func (" ++ r.receiver typeSuffix ++ " " ++ r.name.goType typeSuffix ++ ") " ++
        (Naming.goName path segment ++ "(" ++ rest)) = r.receiver typeSuffix :: bracketVariables rest.toList :=
  signatureVariables_eq (isWord_variableName _).blank (notMem_variableName (by decide +kernel) _)
    (r.bracket_notMem_goType typeSuffix) (Naming.bracket_notMem_goName _ _) rest

theorem variableNames_getterOf :
    (r.getterOf interfaceSuffix typeSuffix m).variableNames =
      r.receiver typeSuffix :: if m.form.loops = 0 then [] else "result" :: indexNames m.form.loops := by
  have hheader : m.getterHeader interfaceSuffix =
      Naming.goName "get" m.name ++ "(" ++ (") " ++ m.form.fieldInterfaceType interfaceSuffix) := by
    simp only [Member.getterHeader, String.append_assoc]
    rfl
  simp only [Method.variableNames, getterOf]
  rw [hheader, signatureVariables_method, bodyVariables_getter _ _ (r.isTarget_field typeSuffix m), String.toList_append]
  rfl

theorem variableNames_setterOf :
    (r.setterOf interfaceSuffix typeSuffix m).variableNames =
      r.receiver typeSuffix :: Naming.variableName m.name :: indexNames m.form.loops := by
  have hheader : m.setterHeader interfaceSuffix true = Naming.goName "set" m.name ++ "(" ++
      (Naming.variableName m.name ++ " " ++ (m.form.fieldInterfaceType interfaceSuffix ++ ")")) := by
    simp only [Member.setterHeader, if_true, String.append_assoc]
  have hchars : (Naming.variableName m.name ++ " " ++ (m.form.fieldInterfaceType interfaceSuffix ++ ")")).toList =
      (Naming.variableName m.name).toList ++ ' ' :: (m.form.fieldInterfaceType interfaceSuffix ++ ")").toList := by
    simp
  simp only [Method.variableNames, setterOf]
  rw [hheader, signatureVariables_method, bodyVariables_setter _ _ (r.isTarget_field typeSuffix m) (isWord_variableName _),
    hchars, bracketVariables_word (isWord_variableName _).blank (notMem_variableName (by decide +kernel) _)]
  rfl

end Record

/-! ### Names of indices -/

/-- The variables of the first 18 loops are the letters from `i` to `z`. -/
theorem indexNames_of_le {n : ℕ} (hn : n ≤ 18) : indexNames n = (indexNames 18).take n := by
  rw [indexNames, indexNames, ← List.map_take, List.take_range, Nat.min_eq_left hn]

/-- Behind the letters comes a brace. -/
theorem brace_mem_indexNames {n : ℕ} (hn : 18 < n) : "\x7b" ∈ indexNames n :=
  List.mem_map.mpr ⟨18, List.mem_range.mpr hn, by decide⟩

theorem result_notMem_indexNames (n : ℕ) : "result" ∉ indexNames n := by
  intro hmem
  obtain ⟨j, -, hj⟩ := List.mem_map.mp hmem
  have hlength : 1 = "result".toList.length := by rw [← hj, String.toList_singleton, List.length_singleton]
  exact absurd hlength (by decide)

namespace Alphabet

variable (alphabet : Alphabet)

theorem areHygienic_nil : alphabet.AreHygienic [] :=
  ⟨List.nodup_nil, List.forall_mem_nil _⟩

theorem areHygienic_cons_iff {name : String} {names : List String} :
    alphabet.AreHygienic (name :: names) ↔
      alphabet.IsIdentifier name ∧ name ∉ names ∧ alphabet.AreHygienic names := by
  rw [AreHygienic, List.nodup_cons, List.forall_mem_cons, AreHygienic]
  tauto

/-- The letters of ASCII make identifiers of all alphabets. -/
theorem isIdentifier_of_ascii {name : String} (hne : name ≠ "")
    (hletters : (name.toList.all fun c => c.toNat < 0x80 && c.isAlpha) = true) (hkeyword : name ∉ Naming.keywords) :
    alphabet.IsIdentifier name := by
  have hletter : ∀ c ∈ name.toList, alphabet.isLetter c = true := by
    intro c hc
    have hascii := List.all_eq_true.mp hletters c hc
    simp only [Bool.and_eq_true, decide_eq_true_eq] at hascii
    rw [alphabet.isLetter_eq c hascii.1, hascii.2, Bool.true_or]
  obtain ⟨c, cs, hcs⟩ := List.exists_cons_of_ne_nil (fun hnil => hne (String.toList_eq_nil_iff.mp hnil))
  rw [hcs, List.forall_mem_cons] at hletter
  exact ⟨⟨c, cs, hcs, hletter.1, fun d hd => .inl (hletter.2 d hd)⟩, hkeyword⟩

/-- Indices are in order up to 18 loops, and no farther. -/
theorem areHygienic_indexNames_iff {n : ℕ} : alphabet.AreHygienic (indexNames n) ↔ n ≤ 18 := by
  constructor
  · intro hnames
    by_contra hn
    obtain ⟨⟨c, cs, hcs, hletter, -⟩, -⟩ := hnames.2 _ (brace_mem_indexNames (Nat.lt_of_not_le hn))
    obtain ⟨rfl, -⟩ := List.cons.inj hcs
    rw [alphabet.isLetter_eq _ (by decide)] at hletter
    exact absurd hletter (by decide)
  · intro hn
    have hnodup : (indexNames 18).Nodup := by decide
    have hletters : ∀ name ∈ indexNames 18,
        name ≠ "" ∧ (name.toList.all fun c => c.toNat < 0x80 && c.isAlpha) = true ∧ name ∉ Naming.keywords := by decide
    rw [indexNames_of_le hn]
    refine ⟨hnodup.sublist (List.take_sublist _ _), fun name hname => ?_⟩
    obtain ⟨hne, hascii, hkeyword⟩ := hletters name (List.mem_of_mem_take hname)
    exact alphabet.isIdentifier_of_ascii hne hascii hkeyword

end Alphabet

/-- **Hygiene of accessors.** The implementation of a record is made of a getter and a setter for each member. A getter
declares the receiver and, if it copies, the sequence `result` and the indices of its loops; a setter declares the receiver,
its argument and the indices of its loops. These are different identifiers exactly if receiver and argument are spelled
with letters and digits of Go, there are not more loops than letters from `i` on, and neither receiver nor argument is one
of the other variables. -/
theorem accessors_areHygienic_iff (alphabet : Alphabet) (r : Record) (interfaceSuffix typeSuffix : String) :
    r.implementation interfaceSuffix typeSuffix =
        "\n".intercalate ((r.members.flatMap fun m =>
          [r.getterOf interfaceSuffix typeSuffix m, r.setterOf interfaceSuffix typeSuffix m]).map fun x => x.text ++ "\n") ∧
      ∀ m : Member,
        ((r.getterOf interfaceSuffix typeSuffix m).variableNames =
            r.receiver typeSuffix :: (if m.form.loops = 0 then [] else "result" :: indexNames m.form.loops) ∧
          (r.setterOf interfaceSuffix typeSuffix m).variableNames =
            r.receiver typeSuffix :: Naming.variableName m.name :: indexNames m.form.loops) ∧
        (alphabet.AreHygienic (r.getterOf interfaceSuffix typeSuffix m).variableNames ↔
          alphabet.Spells (r.receiver typeSuffix) ∧ m.form.loops ≤ 18 ∧
            (m.form.loops ≠ 0 → r.receiver typeSuffix ≠ "result") ∧ r.receiver typeSuffix ∉ indexNames m.form.loops) ∧
        (alphabet.AreHygienic (r.setterOf interfaceSuffix typeSuffix m).variableNames ↔
          alphabet.Spells (r.receiver typeSuffix) ∧ alphabet.Spells (Naming.variableName m.name) ∧ m.form.loops ≤ 18 ∧
            r.receiver typeSuffix ≠ Naming.variableName m.name ∧ r.receiver typeSuffix ∉ indexNames m.form.loops ∧
            Naming.variableName m.name ∉ indexNames m.form.loops) := by
  have hreceiver : alphabet.IsIdentifier (r.receiver typeSuffix) ↔ alphabet.Spells (r.receiver typeSuffix) :=
    alphabet.isIdentifier_variableName_iff _
  refine ⟨?_, fun m => ⟨⟨r.variableNames_getterOf _ _ m, r.variableNames_setterOf _ _ m⟩, ?_, ?_⟩⟩
  · simp only [Record.implementation, List.map_flatMap, r.methods_eq, List.map_cons, List.map_nil]
  · rw [r.variableNames_getterOf, alphabet.areHygienic_cons_iff, hreceiver]
    by_cases hloops : m.form.loops = 0
    · simp [hloops, indexNames, alphabet.areHygienic_nil]
    · have hresult : alphabet.IsIdentifier "result" :=
        alphabet.isIdentifier_of_ascii (by decide) (by decide) (by decide)
      rw [if_neg hloops, List.mem_cons, not_or, alphabet.areHygienic_cons_iff, alphabet.areHygienic_indexNames_iff]
      exact
        ⟨fun ⟨howner, ⟨hne, hapart⟩, _, _, hle⟩ => ⟨howner, hle, fun _ => hne, hapart⟩,
          fun ⟨howner, hle, hne, hapart⟩ => ⟨howner, ⟨hne hloops, hapart⟩, hresult, result_notMem_indexNames _, hle⟩⟩
  · rw [r.variableNames_setterOf, alphabet.areHygienic_cons_iff, hreceiver, List.mem_cons, not_or,
      alphabet.areHygienic_cons_iff, alphabet.isIdentifier_variableName_iff, alphabet.areHygienic_indexNames_iff]
    exact
      ⟨fun ⟨howner, ⟨hne, hapart⟩, hargument, hnot, hle⟩ => ⟨howner, hargument, hle, hne, hapart, hnot⟩,
        fun ⟨howner, hargument, hle, hne, hapart, hnot⟩ => ⟨howner, ⟨hne, hapart⟩, hargument, hnot, hle⟩⟩

/-- The letters and digits of ASCII alone. -/
def Alphabet.ascii : Alphabet where
  isLetter c := c.isAlpha || c == '_'
  isDigit := Char.isDigit
  isLetter_eq _ _ := rfl
  isDigit_eq _ _ := rfl

/-- The toys of a pet, in boxes of several. -/
def toys : Member :=
  ⟨"toys", .top, false, (Form.record ⟨"pet_toys", false⟩).nested 2⟩

/-- A pet. -/
def pet : Record :=
  ⟨"pet", [toys]⟩

/-- The accessors for the toys of a pet are in order. -/
theorem accessors_of_toys_areHygienic :
    Alphabet.ascii.AreHygienic (pet.getterOf "gen" "" toys).variableNames ∧
      Alphabet.ascii.AreHygienic (pet.setterOf "gen" "" toys).variableNames := by
  have hreceiver : pet.receiver "" = "pet" := by decide +kernel
  have hargument : Naming.variableName toys.name = "toys" := by decide +kernel
  have hpet : Alphabet.ascii.Spells "pet" := (Alphabet.ascii.isIdentifier_of_ascii (by decide) (by decide) (by decide)).1
  have htoys : Alphabet.ascii.Spells "toys" :=
    (Alphabet.ascii.isIdentifier_of_ascii (by decide) (by decide) (by decide)).1
  obtain ⟨-, hgetter, hsetter⟩ := (accessors_areHygienic_iff .ascii pet "gen" "").2 toys
  rw [hgetter, hsetter, hreceiver, hargument]
  exact ⟨⟨hpet, by decide, by decide, by decide⟩, hpet, htoys, by decide, by decide, by decide, by decide⟩

/-- A text that is kept as it came. -/
def noteRaw : Member :=
  ⟨"note_raw", .top, false, .scalar { kind := .string }⟩

/-- A note. -/
def note : Record :=
  ⟨"note", [noteRaw]⟩

/-- With the suffix of structs the receiver of a note is named as the argument of its setter. -/
theorem setter_of_note_is_not_hygienic :
    (note.setterOf "raw_gen" "raw" noteRaw).text =
        "func (noteRaw *NoteRaw) SetNoteRaw(noteRaw goext.MaybeString) \x7b\n\tnoteRaw.NoteRaw = noteRaw\n\x7d" ∧
      (note.setterOf "raw_gen" "raw" noteRaw).variableNames = ["noteRaw", "noteRaw"] ∧
      ¬ Alphabet.ascii.AreHygienic (note.setterOf "raw_gen" "raw" noteRaw).variableNames := by
  have hnames : (note.setterOf "raw_gen" "raw" noteRaw).variableNames = ["noteRaw", "noteRaw"] := by
    rw [Record.variableNames_setterOf]
    decide +kernel
  refine ⟨by decide +kernel, hnames, fun hhygienic => ?_⟩
  rw [hnames] at hhygienic
  exact absurd hhygienic.1 (by decide)

end Go

end Schemata
