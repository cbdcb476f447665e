import MessengerClient.Lib.Ordinals
import MessengerClient.Markdown.Document
import Mathlib

/-!
# MessengerClient.Markdown.Anchors

Anchors of headings and footnotes, of `iv/markdown/iv_markdown_parse_finalize.cpp`: headings are
named by their texts, and those that were named so before by a count, and footnotes are numbered
in the order of their definitions.

A name with a count may be the name of another heading, and `fn` with a number may be a name with
or without a count: anchors are unambiguous if and only if this is not so
(`finalizeDocumentSemantics_iff`).
-/

namespace MessengerClient

namespace Iv

namespace Markdown

open Ordinals Texts

local instance lawfulBEqText : LawfulBEq (List Char) := inferInstance

section

variable (qt : Toolkit)

/-- `QChar::isLetterOrNumber`, of which the units of a surrogate pair are neither. -/
def isLetterOrNumber (ch : Char) : Bool := ch.toNat < 0x10000 && qt.isLetterOrNumber ch

/-- The loop of `AnchorIdBaseFromText`. -/
def anchorIdLoop : List Char → Bool → List Char → List Char
  | result, _, [] => result
  | result, pendingHyphen, ch :: text =>
    if isLetterOrNumber qt ch then
      anchorIdLoop ((if pendingHyphen && !result.isEmpty then result ++ ['-'] else result) ++ [ch])
        false text
    else anchorIdLoop result (if result.isEmpty then pendingHyphen else true) text

def anchorIdBaseFromText (text : List Char) : List Char :=
  let result := anchorIdLoop qt [] false (lowered qt (trimmed text))
  if result = [] then "section".toList else result

def footnoteDefinitionAnchorId (ordinal : Nat) : List Char :=
  if ordinal > 0 then "fn-".toList ++ number ordinal else []

/-- `FindNamedCounter`. -/
def findNamedCounter (entries : List (List Char × Nat)) (key : List Char) : Option Nat :=
  entries.lookup key

/-- What `++(*count)` does to the entries. -/
def increment : List (List Char × Nat) → List Char → List (List Char × Nat)
  | [], _ => []
  | entry :: entries, key =>
    if entry.1 = key then (entry.1, entry.2 + 1) :: entries else entry :: increment entries key

def findNamedValue (entries : List (List Char × Nat)) (key : List Char) : Nat :=
  (entries.lookup key).getD 0

/-! ## The passes -/

structure HeadingAnchors where
  counts : List (List Char × Nat) := []
  warnings : List (List Char)

/-- A node in `AssignHeadingAnchors`. -/
def assignHeadingAnchor (node : MarkdownNode) (state : HeadingAnchors) :
    NodeFields × HeadingAnchors :=
  let fields := node.label
  if fields.kind = .Heading then
    let base := anchorIdBaseFromText qt (plainText node)
    match findNamedCounter state.counts base with
    | some count =>
      let anchorId := base ++ '-' :: number (count + 1 : Nat)
      ({ fields with anchorId }, {
        counts := increment state.counts base
        warnings := state.warnings ++ ["Duplicate heading anchor \"".toList ++ base
          ++ "\" remapped to \"".toList ++ anchorId ++ "\"".toList] })
    | none =>
      ({ fields with anchorId := base }, { state with counts := state.counts ++ [(base, 1)] })
  else (fields, state)

def assignHeadingAnchors (node : MarkdownNode) (state : HeadingAnchors) :
    MarkdownNode × HeadingAnchors :=
  node.visit (assignHeadingAnchor qt) state

structure FootnoteOrdinals where
  definitions : List (List Char × Nat) := []
  nextOrdinal : Nat := 1
  warnings : List (List Char)

/-- What a warning says of where a node is. -/
def positionText (range : SourceRange) : List Char :=
  number range.startLine ++ ":".toList ++ number range.startColumn

/-- A node in `AssignFootnoteDefinitionOrdinals`. -/
def assignFootnoteDefinitionOrdinal (fields : NodeFields) (state : FootnoteOrdinals) :
    NodeFields × FootnoteOrdinals :=
  if fields.kind = .FootnoteDefinition then
    if fields.footnoteLabel = [] then
      (fields, { state with
        warnings := state.warnings ++ ["Footnote definition without label at ".toList
          ++ positionText fields.range] })
    else
      let existing := findNamedValue state.definitions fields.footnoteLabel
      if existing ≠ 0 then
        ({ fields with
            footnoteOrdinal := existing
            anchorId := footnoteDefinitionAnchorId existing },
          { state with
            warnings := state.warnings ++ ["Duplicate footnote definition \"".toList
              ++ fields.footnoteLabel ++ "\"".toList] })
      else
        ({ fields with
            footnoteOrdinal := state.nextOrdinal
            anchorId := footnoteDefinitionAnchorId state.nextOrdinal },
          { state with
            definitions := state.definitions ++ [(fields.footnoteLabel, state.nextOrdinal)]
            nextOrdinal := state.nextOrdinal + 1 })
  else (fields, state)

def assignFootnoteDefinitionOrdinals (node : MarkdownNode) (state : FootnoteOrdinals) :
    MarkdownNode × FootnoteOrdinals :=
  node.visit (fun node => assignFootnoteDefinitionOrdinal node.label) state

/-- A node in `AssignFootnoteReferenceOrdinals`. -/
def assignFootnoteReferenceOrdinal (definitions : List (List Char × Nat)) (fields : NodeFields)
    (warnings : List (List Char)) : NodeFields × List (List Char) :=
  if fields.kind = .FootnoteReference then
    if fields.footnoteLabel = [] then
      (fields, warnings ++ ["Footnote reference without label at ".toList
        ++ positionText fields.range])
    else
      let ordinal := findNamedValue definitions fields.footnoteLabel
      if ordinal ≠ 0 then ({ fields with footnoteOrdinal := ordinal }, warnings)
      else
        (fields, warnings ++ ["Unresolved footnote reference \"".toList ++ fields.footnoteLabel
          ++ "\"".toList])
  else (fields, warnings)

def assignFootnoteReferenceOrdinals (definitions : List (List Char × Nat)) (node : MarkdownNode)
    (warnings : List (List Char)) : MarkdownNode × List (List Char) :=
  node.visit (fun node => assignFootnoteReferenceOrdinal definitions node.label) warnings

def collectAnchorIds (node : MarkdownNode) : List (List Char) :=
  node.labels.filterMap fun fields =>
    if fields.anchorId ≠ [] ∧ (fields.kind = .Heading ∨ fields.kind = .FootnoteDefinition) then
      some fields.anchorId
    else none

def normalizeParsedFragmentId (fragment : List Char) : List Char :=
  normalizeFragmentId qt fragment

def validateLocalFragments (node : MarkdownNode) (anchors : List (List Char)) :
    List (List Char) :=
  node.labels.filterMap fun fields =>
    if fields.kind = .Link ∧ fields.url.head? = some '#' then
      let fragment := normalizeParsedFragmentId qt (fields.url.drop 1)
      if fragment = [] ∨ fragment ∉ anchors then
        some ("Unresolved local fragment \"".toList ++ fields.url ++ "\"".toList)
      else none
    else none

def finalizeDocumentSemantics (document : PreparedDocument) : PreparedDocument :=
  let headings := assignHeadingAnchors qt document.document { warnings := document.warnings }
  let definitions := assignFootnoteDefinitionOrdinals headings.1 { warnings := headings.2.warnings }
  let references := assignFootnoteReferenceOrdinals definitions.2.definitions definitions.1
    definitions.2.warnings
  let anchors := collectAnchorIds references.1
  { document with
    document := references.1
    warnings := references.2 ++ validateLocalFragments qt references.1 anchors }

end

variable {qt : Toolkit} {fields : NodeFields} {base label : List Char} {n : Nat}

/-! ## Headings -/

/-- The name of an occurrence of a text. -/
def anchorText (name : List Char × Nat) : List Char :=
  if name.2 = 1 then name.1 else name.1 ++ '-' :: number name.2

/-- What headings are named by. -/
def baseOf (qt : Toolkit) (node : MarkdownNode) : Option (List Char) :=
  if node.label.kind = .Heading then some (anchorIdBaseFromText qt (plainText node)) else none

def headingBases (qt : Toolkit) (document : MarkdownNode) : List (List Char) :=
  document.preorder.filterMap (baseOf qt)

/-- The anchor of a heading. -/
def headingAnchorOf (fields : NodeFields) : Option (List Char) :=
  if fields.kind = .Heading then some fields.anchorId else none

theorem anchorIdBaseFromText_ne (qt : Toolkit) (text : List Char) :
    anchorIdBaseFromText qt text ≠ [] := by
  rw [anchorIdBaseFromText]
  split
  · simp
  · next hne => exact hne

/-- The counters of the names that were there so far. -/
def Counts (counts : List (List Char × Nat)) (before : List (List Char)) : Prop :=
  ∀ base, findNamedCounter counts base =
    if before.count base = 0 then none else some (before.count base)

theorem findNamedCounter_increment {counts : List (List Char × Nat)} {key : List Char} :
    findNamedCounter (increment counts key) base =
      if base = key then (findNamedCounter counts base).map (· + 1)
      else findNamedCounter counts base := by
  rw [findNamedCounter, findNamedCounter]
  induction counts with
  | nil => simp [increment]
  | cons entry counts ih =>
    rw [increment]
    by_cases hkey : entry.1 = key
    · rw [if_pos hkey, List.lookup_cons, List.lookup_cons]
      by_cases hbase : base = entry.1
      · simp [hbase, hkey]
      · have hne : base ≠ key := hkey ▸ hbase
        simp [beq_eq_false_iff_ne.mpr hbase, hne]
    · rw [if_neg hkey, List.lookup_cons, List.lookup_cons, ih]
      by_cases hbase : base = entry.1
      · simp [hbase, hkey]
      · simp [beq_eq_false_iff_ne.mpr hbase]

theorem findNamedCounter_append {counts : List (List Char × Nat)} {key : List Char} :
    findNamedCounter (counts ++ [(key, n)]) base =
      (findNamedCounter counts base).or (if base = key then some n else none) := by
  rw [findNamedCounter, findNamedCounter, List.lookup_append, List.lookup_cons]
  by_cases hbase : base = key
  · simp [hbase]
  · simp [beq_eq_false_iff_ne.mpr hbase, hbase]

/-- What the first heading of a name does to the counters. -/
theorem Counts.first {counts : List (List Char × Nat)} {before : List (List Char)}
    (h : Counts counts before) (hnone : findNamedCounter counts base = none) :
    before.count base = 0 ∧ Counts (counts ++ [(base, 1)]) (before ++ [base]) := by
  have hzero : before.count base = 0 := by
    have hbase := h base
    rw [hnone] at hbase
    by_contra hne
    rw [if_neg hne] at hbase
    cases hbase
  refine ⟨hzero, fun other => ?_⟩
  rw [findNamedCounter_append, h other, List.count_append, List.count_singleton]
  by_cases hother : other = base
  · subst hother
    simp [hzero]
  · by_cases hcount : before.count other = 0 <;> simp [hcount, hother, Ne.symm hother]

/-- What a heading with a name that was there does to them. -/
theorem Counts.next {counts : List (List Char × Nat)} {before : List (List Char)} {count : Nat}
    (h : Counts counts before) (hsome : findNamedCounter counts base = some count) :
    count = before.count base ∧ count ≠ 0 ∧
      Counts (increment counts base) (before ++ [base]) := by
  have hbase := h base
  rw [hsome] at hbase
  have hne : before.count base ≠ 0 := by
    intro hzero
    rw [if_pos hzero] at hbase
    cases hbase
  rw [if_neg hne, Option.some_inj] at hbase
  refine ⟨hbase, hbase ▸ hne, fun other => ?_⟩
  rw [findNamedCounter_increment, h other, List.count_append, List.count_singleton]
  by_cases hother : other = base
  · subst hother
    simp [hne]
  · simp [hother, Ne.symm hother]

/-- **The anchors of headings** are their names with the numbers of their occurrences. -/
theorem scan_assignHeadingAnchor (nodes : List MarkdownNode) (state : HeadingAnchors)
    (before : List (List Char)) (h : Counts state.counts before) :
    (RoseTree.scan (assignHeadingAnchor qt) nodes state).1.filterMap headingAnchorOf =
      (numberedFrom before (nodes.filterMap (baseOf qt))).map anchorText := by
  induction nodes generalizing state before with
  | nil => rfl
  | cons node nodes ih =>
    rw [RoseTree.scan, List.filterMap_cons, List.filterMap_cons, baseOf, assignHeadingAnchor]
    by_cases hkind : node.label.kind = .Heading
    · simp only [if_pos hkind, numberedFrom, List.map_cons]
      cases hfind : findNamedCounter state.counts (anchorIdBaseFromText qt (plainText node)) with
      | none =>
        obtain ⟨hzero, hcounts⟩ := h.first hfind
        simp only [headingAnchorOf, if_pos hkind, hzero, anchorText, Nat.zero_add, if_true]
        exact congrArg _ (ih { state with counts := _ } _ hcounts)
      | some count =>
        obtain ⟨hcount, hne, hcounts⟩ := h.next hfind
        have hone : before.count (anchorIdBaseFromText qt (plainText node)) + 1 ≠ 1 := by omega
        simp only [headingAnchorOf, if_pos hkind, hcount, anchorText, if_neg hone]
        exact congrArg _ (ih { counts := _, warnings := _ } _ hcounts)
    · simp only [if_neg hkind, headingAnchorOf]
      exact ih state before h

/-! ## Names that are the same -/

theorem hyphen_not_mem_number (n : Nat) : '-' ∉ number n := by
  rw [number, if_neg (by omega), Int.natAbs_natCast]
  exact fun hmem => absurd (isDigit_of_mem hmem) (by decide)

/-- A text is split at its last hyphen in one way. -/
theorem append_hyphen_inj {a b u v : List Char} (hu : '-' ∉ u) (hv : '-' ∉ v)
    (h : a ++ '-' :: u = b ++ '-' :: v) : a = b ∧ u = v := by
  obtain ⟨c, hb, hc⟩ | ⟨c, ha, hc⟩ := List.append_eq_append_iff.mp h
  · cases c with
    | nil => exact ⟨by rw [hb, List.append_nil], (List.cons.inj hc).2⟩
    | cons d c =>
      refine absurd ?_ hu
      rw [(List.cons.inj hc).2]
      simp
  · cases c with
    | nil => exact ⟨by rw [ha, List.append_nil], (List.cons.inj hc).2.symm⟩
    | cons d c =>
      refine absurd ?_ hv
      rw [(List.cons.inj hc).2]
      simp

theorem counted_inj {a b : List Char} {m n : Nat}
    (h : a ++ '-' :: number m = b ++ '-' :: number n) :
    a = b ∧ m = n := by
  obtain ⟨hab, hmn⟩ := append_hyphen_inj (hyphen_not_mem_number m) (hyphen_not_mem_number n) h
  exact ⟨hab, by exact_mod_cast number_inj hmn⟩

/-- No name is another one with a count. -/
def Uncounted (bases : List (List Char)) : Prop :=
  ∀ base ∈ bases, ∀ other, ∀ n, 2 ≤ n → n ≤ bases.count other → base ≠ other ++ '-' :: number n

/-- **The names of headings are distinct** if and only if no name is another one with a count. -/
theorem nodup_numbered_iff (bases : List (List Char)) :
    ((numbered bases).map anchorText).Nodup ↔ Uncounted bases := by
  rw [List.nodup_map_iff_inj_on nodup_numbered]
  constructor
  · rintro hinj base hbase other n htwo hle heq
    have hfirst : (base, 1) ∈ numbered bases :=
      mem_numbered.mpr ⟨Nat.one_pos, List.count_pos_iff.mpr hbase⟩
    have hcounted : (other, n) ∈ numbered bases := mem_numbered.mpr ⟨by omega, hle⟩
    have hsame : anchorText (base, 1) = anchorText (other, n) := by
      rw [anchorText, if_pos rfl, anchorText, if_neg (by simp only; omega)]
      exact heq
    have hone := congrArg Prod.snd (hinj _ hfirst _ hcounted hsame)
    simp only at hone
    omega
  · rintro h ⟨a, m⟩ ha ⟨b, n⟩ hb heq
    rw [mem_numbered] at ha hb
    have hmema : a ∈ bases := List.count_pos_iff.mp (by omega)
    have hmemb : b ∈ bases := List.count_pos_iff.mp (by omega)
    rw [anchorText, anchorText] at heq
    by_cases hm : m = 1
    · by_cases hn : n = 1
      · simp only [if_pos hm, if_pos hn] at heq
        rw [heq, hm, hn]
      · simp only [if_pos hm, if_neg hn] at heq
        exact absurd heq (h a hmema b n (by omega) hb.2)
    · by_cases hn : n = 1
      · simp only [if_neg hm, if_pos hn] at heq
        exact absurd heq.symm (h b hmemb a m (by omega) ha.2)
      · simp only [if_neg hm, if_neg hn] at heq
        obtain ⟨hab, hmn⟩ := counted_inj heq
        rw [hab, hmn]

/-! ## Footnotes -/

/-- The definition of a footnote with a label. -/
def definitionOf (fields : NodeFields) : Option NodeFields :=
  if fields.kind = .FootnoteDefinition ∧ fields.footnoteLabel ≠ [] then some fields else none

def definitions (document : MarkdownNode) : List NodeFields :=
  document.labels.filterMap definitionOf

def definitionLabels (document : MarkdownNode) : List (List Char) :=
  (definitions document).map (·.footnoteLabel)

/-- The first definition of each label. -/
def firstDefinitions (document : MarkdownNode) : List NodeFields :=
  firstsBy (·.footnoteLabel) [] (definitions document)

def referenceOf (fields : NodeFields) : Option NodeFields :=
  if fields.kind = .FootnoteReference then some fields else none

def references (document : MarkdownNode) : List NodeFields :=
  document.labels.filterMap referenceOf

/-- The definition of a footnote with its number. -/
def numberDefinition (labels : List (List Char)) (fields : NodeFields) : NodeFields :=
  { fields with
    footnoteOrdinal := labels.idxOf fields.footnoteLabel + 1
    anchorId := footnoteDefinitionAnchorId (labels.idxOf fields.footnoteLabel + 1) }

theorem findNamedValue_zipIdx (labels : List (List Char)) (label : List Char) :
    findNamedValue (labels.zipIdx 1) label =
      if label ∈ labels then labels.idxOf label + 1 else 0 := by
  rw [findNamedValue, lookup_zipIdx]
  split <;> rfl

theorem definitionOf_eq_some {fields : NodeFields} (hkind : fields.kind = .FootnoteDefinition)
    (hlabel : fields.footnoteLabel ≠ []) : definitionOf fields = some fields :=
  if_pos ⟨hkind, hlabel⟩

/-- The state when labels were seen. -/
def seenState (seen warnings : List (List Char)) : FootnoteOrdinals :=
  ⟨seen.zipIdx 1, seen.length + 1, warnings⟩

/-- **A definition** with a label. -/
theorem assignFootnoteDefinitionOrdinal_definition (hkind : fields.kind = .FootnoteDefinition)
    (hlabel : fields.footnoteLabel ≠ []) (seen warnings : List (List Char)) :
    ∃ warnings', assignFootnoteDefinitionOrdinal fields (seenState seen warnings) =
      (numberDefinition (addFirst seen fields.footnoteLabel) fields,
        seenState (addFirst seen fields.footnoteLabel) warnings') := by
  rw [assignFootnoteDefinitionOrdinal, if_pos hkind, if_neg hlabel, seenState,
    findNamedValue_zipIdx, numberDefinition, idxOf_addFirst, addFirst]
  by_cases hseen : fields.footnoteLabel ∈ seen
  · simp only [if_pos hseen, ne_eq, Nat.succ_ne_zero, not_false_eq_true, if_true]
    exact ⟨_, rfl⟩
  · refine ⟨warnings, ?_⟩
    simp [hseen, seenState, List.zipIdx_append, Nat.add_comm 1]

/-- Another node. -/
theorem assignFootnoteDefinitionOrdinal_other
    (h : ¬(fields.kind = .FootnoteDefinition ∧ fields.footnoteLabel ≠ []))
    (seen warnings : List (List Char)) :
    ∃ warnings', assignFootnoteDefinitionOrdinal fields (seenState seen warnings) =
      (fields, seenState seen warnings') := by
  rw [assignFootnoteDefinitionOrdinal]
  by_cases hkind : fields.kind = .FootnoteDefinition
  · have hlabel : fields.footnoteLabel = [] := by
      by_contra hne
      exact h ⟨hkind, hne⟩
    rw [if_pos hkind, if_pos hlabel]
    exact ⟨_, rfl⟩
  · rw [if_neg hkind]
    exact ⟨_, rfl⟩

/-- **Definitions are numbered** by which of the labels theirs is. -/
theorem scan_assignFootnoteDefinitionOrdinal (nodes : List NodeFields)
    (seen warnings : List (List Char)) :
    (RoseTree.scan assignFootnoteDefinitionOrdinal nodes (seenState seen warnings)).1.filterMap
        definitionOf =
      (nodes.filterMap definitionOf).map (numberDefinition
        (firstsFrom seen ((nodes.filterMap definitionOf).map (·.footnoteLabel)))) ∧
    (RoseTree.scan assignFootnoteDefinitionOrdinal nodes (seenState seen warnings)).2.definitions =
      (firstsFrom seen ((nodes.filterMap definitionOf).map (·.footnoteLabel))).zipIdx 1 := by
  induction nodes generalizing seen warnings with
  | nil => exact ⟨rfl, rfl⟩
  | cons fields nodes ih =>
    by_cases hdefinition : fields.kind = .FootnoteDefinition ∧ fields.footnoteLabel ≠ []
    · obtain ⟨hkind, hlabel⟩ := hdefinition
      obtain ⟨warnings', hstep⟩ :=
        assignFootnoteDefinitionOrdinal_definition hkind hlabel seen warnings
      obtain ⟨hrest, hstate⟩ := ih (addFirst seen fields.footnoteLabel) warnings'
      have hidx := @idxOf_firstsFrom _ _ _ _ _
        ((nodes.filterMap definitionOf).map (·.footnoteLabel))
        (@mem_addFirst _ _ _ fields.footnoteLabel seen)
      have hlabels : firstsFrom seen (fields.footnoteLabel
          :: (nodes.filterMap definitionOf).map (·.footnoteLabel)) =
            firstsFrom (addFirst seen fields.footnoteLabel)
              ((nodes.filterMap definitionOf).map (·.footnoteLabel)) := rfl
      have hnumbered : definitionOf (numberDefinition (addFirst seen fields.footnoteLabel) fields) =
          some (numberDefinition (addFirst seen fields.footnoteLabel) fields) :=
        definitionOf_eq_some hkind hlabel
      rw [RoseTree.scan, hstep, List.filterMap_cons_some hnumbered,
        List.filterMap_cons_some (definitionOf_eq_some hkind hlabel), List.map_cons, List.map_cons,
        hlabels]
      refine ⟨?_, hstate⟩
      rw [hrest, List.cons.injEq]
      refine ⟨?_, rfl⟩
      rw [numberDefinition, numberDefinition, hidx]
    · obtain ⟨warnings', hstep⟩ :=
        assignFootnoteDefinitionOrdinal_other hdefinition seen warnings
      have hnone : definitionOf fields = none := if_neg hdefinition
      rw [RoseTree.scan, hstep, List.filterMap_cons_none hnone, List.filterMap_cons_none hnone]
      exact ih seen warnings'

/-! ## The document with its anchors -/

/-- A reference with the number of its definition. -/
def resolveReference (labels : List (List Char)) (fields : NodeFields) : NodeFields :=
  if fields.footnoteLabel ∈ labels then
    { fields with footnoteOrdinal := labels.idxOf fields.footnoteLabel + 1 }
  else fields

/-- What a reference becomes; labels that were found are not empty. -/
theorem assignFootnoteReferenceOrdinal_reference {labels : List (List Char)}
    (hlabels : [] ∉ labels) (fields : NodeFields) (warnings : List (List Char)) :
    referenceOf (assignFootnoteReferenceOrdinal (labels.zipIdx 1) fields warnings).1 =
      (referenceOf fields).map (resolveReference labels) := by
  rw [assignFootnoteReferenceOrdinal, referenceOf, findNamedValue_zipIdx]
  by_cases hkind : fields.kind = .FootnoteReference
  · by_cases hempty : fields.footnoteLabel = []
    · simp [hkind, hempty, hlabels, referenceOf, resolveReference]
    · by_cases hmem : fields.footnoteLabel ∈ labels
      · simp [hkind, hempty, hmem, referenceOf, resolveReference]
      · simp [hkind, hempty, hmem, referenceOf, resolveReference]
  · simp [hkind, referenceOf]

/-- What is found of nodes of one kind, if the others change. -/
theorem ofKind_congr {α : Type} {kind : NodeKind} {f : NodeFields → Option α}
    (hf : ∀ fields, fields.kind ≠ kind → f fields = none) {a b : NodeFields}
    (hkind : a.kind = b.kind) (hsame : b.kind = kind → a = b) : f a = f b := by
  by_cases h : b.kind = kind
  · rw [hsame h]
  · rw [hf a (hkind ▸ h), hf b h]

section

variable {α : Type} {kind : NodeKind} {f : NodeFields → Option α}
  (hf : ∀ fields, fields.kind ≠ kind → f fields = none)
include hf

/-- **Headings only** change with their anchors. -/
theorem ofKind_assignHeadingAnchors (hne : kind ≠ .Heading) (node : MarkdownNode)
    (state : HeadingAnchors) :
    (assignHeadingAnchors qt node state).1.labels.filterMap f = node.labels.filterMap f := by
  rw [assignHeadingAnchors, RoseTree.labels_visit, RoseTree.labels, List.filterMap_map]
  refine RoseTree.filterMap_scan (fun node state => ?_) _ _
  refine ofKind_congr hf ?_ fun hkind => ?_
  · rw [assignHeadingAnchor]
    simp only
    split
    · split <;> rfl
    · rfl
  · rw [assignHeadingAnchor, if_neg (hkind ▸ hne)]

theorem ofKind_assignFootnoteDefinitionOrdinals (hne : kind ≠ .FootnoteDefinition)
    (node : MarkdownNode) (state : FootnoteOrdinals) :
    (assignFootnoteDefinitionOrdinals node state).1.labels.filterMap f =
      node.labels.filterMap f := by
  rw [assignFootnoteDefinitionOrdinals, RoseTree.labels_visit_label]
  refine RoseTree.filterMap_scan (fun fields state => ?_) _ _
  refine ofKind_congr hf ?_ fun hkind => ?_
  · rw [assignFootnoteDefinitionOrdinal]
    simp only
    split
    · split
      · rfl
      · split <;> rfl
    · rfl
  · rw [assignFootnoteDefinitionOrdinal, if_neg (hkind ▸ hne)]

theorem ofKind_assignFootnoteReferenceOrdinals (hne : kind ≠ .FootnoteReference)
    (labels : List (List Char × Nat)) (node : MarkdownNode) (warnings : List (List Char)) :
    (assignFootnoteReferenceOrdinals labels node warnings).1.labels.filterMap f =
      node.labels.filterMap f := by
  rw [assignFootnoteReferenceOrdinals, RoseTree.labels_visit_label]
  refine RoseTree.filterMap_scan (fun fields state => ?_) _ _
  refine ofKind_congr hf ?_ fun hkind => ?_
  · rw [assignFootnoteReferenceOrdinal]
    simp only
    split
    · split
      · rfl
      · split <;> rfl
    · rfl
  · rw [assignFootnoteReferenceOrdinal, if_neg (hkind ▸ hne)]

end

theorem headingAnchorOf_other (hkind : fields.kind ≠ .Heading) : headingAnchorOf fields = none :=
  if_neg hkind

theorem definitionOf_other (hkind : fields.kind ≠ .FootnoteDefinition) :
    definitionOf fields = none :=
  if_neg fun h => hkind h.1

theorem referenceOf_other (hkind : fields.kind ≠ .FootnoteReference) : referenceOf fields = none :=
  if_neg hkind

theorem nil_not_mem_definitionLabels (document : MarkdownNode) :
    [] ∉ definitionLabels document := by
  intro hmem
  obtain ⟨fields, hfields, hlabel⟩ := List.mem_map.mp hmem
  obtain ⟨node, -, hdefinition⟩ := List.mem_filterMap.mp hfields
  rw [definitionOf] at hdefinition
  split at hdefinition
  · next h =>
    cases hdefinition
    exact h.2 hlabel
  · cases hdefinition

theorem headings_assign (node : MarkdownNode) (warnings : List (List Char)) :
    (assignHeadingAnchors qt node { warnings }).1.labels.filterMap headingAnchorOf =
      (numbered (headingBases qt node)).map anchorText := by
  rw [assignHeadingAnchors, RoseTree.labels_visit]
  exact scan_assignHeadingAnchor node.preorder { warnings } [] fun base => by
    simp [findNamedCounter]

theorem definitions_assign (node : MarkdownNode) (warnings : List (List Char)) :
    definitions (assignFootnoteDefinitionOrdinals node { warnings }).1 =
        (definitions node).map (numberDefinition (firsts (definitionLabels node))) ∧
      (assignFootnoteDefinitionOrdinals node { warnings }).2.definitions =
        (firsts (definitionLabels node)).zipIdx 1 := by
  rw [definitions, assignFootnoteDefinitionOrdinals, RoseTree.labels_visit_label,
    RoseTree.visit_label_state]
  exact scan_assignFootnoteDefinitionOrdinal node.labels [] warnings

theorem references_assign {labels : List (List Char)} (hlabels : [] ∉ labels)
    (node : MarkdownNode) (warnings : List (List Char)) :
    references (assignFootnoteReferenceOrdinals (labels.zipIdx 1) node warnings).1 =
      (references node).map (resolveReference labels) := by
  rw [references, assignFootnoteReferenceOrdinals, RoseTree.labels_visit_label, references,
    List.map_filterMap]
  exact RoseTree.filterMap_scan (assignFootnoteReferenceOrdinal_reference hlabels) _ _

/-- **The anchors of a document.** -/
theorem finalizeDocumentSemantics_document (qt : Toolkit) (document : PreparedDocument) :
    (finalizeDocumentSemantics qt document).document.labels.filterMap headingAnchorOf =
        (numbered (headingBases qt document.document)).map anchorText ∧
      definitions (finalizeDocumentSemantics qt document).document =
        (definitions document.document).map
          (numberDefinition (firsts (definitionLabels document.document))) ∧
      references (finalizeDocumentSemantics qt document).document =
        (references document.document).map
          (resolveReference (firsts (definitionLabels document.document))) := by
  have hsame : definitions (assignHeadingAnchors qt document.document
      { warnings := document.warnings }).1 = definitions document.document :=
    ofKind_assignHeadingAnchors (fun _ => definitionOf_other) (by decide) _ _
  obtain ⟨hdefinitions, hstate⟩ := definitions_assign
    (assignHeadingAnchors qt document.document { warnings := document.warnings }).1
    (assignHeadingAnchors qt document.document { warnings := document.warnings }).2.warnings
  rw [definitionLabels, hsame, ← definitionLabels] at hdefinitions hstate
  have hlabels : [] ∉ firsts (definitionLabels document.document) := fun hmem =>
    nil_not_mem_definitionLabels document.document (mem_firsts.mp hmem)
  simp only [finalizeDocumentSemantics, hstate]
  refine ⟨?_, ?_, ?_⟩
  · rw [ofKind_assignFootnoteReferenceOrdinals (fun _ => headingAnchorOf_other) (by decide),
      ofKind_assignFootnoteDefinitionOrdinals (fun _ => headingAnchorOf_other) (by decide),
      headings_assign]
  · rw [definitions,
      ofKind_assignFootnoteReferenceOrdinals (fun _ => definitionOf_other) (by decide)]
    exact hdefinitions
  · rw [references_assign hlabels, references,
      ofKind_assignFootnoteDefinitionOrdinals (fun _ => referenceOf_other) (by decide),
      ofKind_assignHeadingAnchors (fun _ => referenceOf_other) (by decide), references]

/-! ## Anchors that are unambiguous -/

/-- What anchors are to be: those of headings and of the first definitions of footnotes are
distinct, a reference with a number has a definition with its label and its anchor, and labels
that are distinct have distinct numbers. -/
structure Unambiguous (document : MarkdownNode) : Prop where
  anchors : ((document.labels.filterMap headingAnchorOf).filter (· ≠ [])
    ++ (firstDefinitions document).map (·.anchorId)).Nodup
  references : ∀ reference ∈ references document, reference.footnoteOrdinal ≠ 0 →
    ∃ definition ∈ definitions document,
      definition.footnoteLabel = reference.footnoteLabel ∧
        definition.anchorId = footnoteDefinitionAnchorId reference.footnoteOrdinal
  ordinals : ∀ a ∈ definitions document, ∀ b ∈ definitions document,
    a.footnoteLabel ≠ b.footnoteLabel → a.footnoteOrdinal ≠ b.footnoteOrdinal

/-- No name of a heading is another one with a count, or the anchor of a footnote, and no reference
has a number already. -/
structure Apart (qt : Toolkit) (document : MarkdownNode) : Prop where
  uncounted : Uncounted (headingBases qt document)
  footnotes : ∀ n, 1 ≤ n → n ≤ (firsts (definitionLabels document)).length →
    footnoteDefinitionAnchorId n ∉ headingBases qt document
  counted : 2 ≤ (firsts (definitionLabels document)).length →
    (headingBases qt document).count "fn".toList < 2
  references : ∀ reference ∈ references document,
    reference.footnoteLabel ∉ definitionLabels document → reference.footnoteOrdinal = 0

theorem footnoteDefinitionAnchorId_inj {m n : Nat} (hm : 1 ≤ m) (hn : 1 ≤ n)
    (h : footnoteDefinitionAnchorId m = footnoteDefinitionAnchorId n) : m = n := by
  rw [footnoteDefinitionAnchorId, footnoteDefinitionAnchorId, if_pos (Nat.lt_of_succ_le hm),
    if_pos (Nat.lt_of_succ_le hn), List.append_right_inj] at h
  exact_mod_cast number_inj h

theorem mem_headingBases {document : MarkdownNode} (h : base ∈ headingBases qt document) :
    base ≠ [] := by
  obtain ⟨node, -, hbase⟩ := List.mem_filterMap.mp h
  rw [baseOf] at hbase
  split at hbase
  · cases hbase
    exact anchorIdBaseFromText_ne qt _
  · cases hbase

/-- No heading is without an anchor. -/
theorem filter_anchorText (document : MarkdownNode) :
    ((numbered (headingBases qt document)).map anchorText).filter (· ≠ []) =
      (numbered (headingBases qt document)).map anchorText := by
  rw [List.filter_eq_self]
  intro anchor hanchor
  obtain ⟨⟨base, n⟩, hname, rfl⟩ := List.mem_map.mp hanchor
  have hmem : base ∈ headingBases qt document :=
    List.count_pos_iff.mp (by have hcount := mem_numbered.mp hname; omega)
  have hne := mem_headingBases hmem
  rw [anchorText]
  split
  · simpa using hne
  · simp

/-- The first definitions that are numbered. -/
def numberedFirsts (document : MarkdownNode) : List NodeFields :=
  firstsBy (·.footnoteLabel) []
    ((definitions document).map (numberDefinition (firsts (definitionLabels document))))

theorem anchorId_numberedFirsts {document : MarkdownNode} {fields : NodeFields}
    (h : fields ∈ numberedFirsts document) :
    fields.footnoteLabel ∈ firsts (definitionLabels document) ∧
      fields.anchorId = footnoteDefinitionAnchorId
        ((firsts (definitionLabels document)).idxOf fields.footnoteLabel + 1) := by
  obtain ⟨definition, hdefinition, rfl⟩ := List.mem_map.mp (mem_of_mem_firstsBy h).1
  have hmem : definition.footnoteLabel ∈ definitionLabels document :=
    List.mem_map_of_mem hdefinition
  exact ⟨mem_firsts.mpr hmem, rfl⟩

/-- **Footnotes have distinct anchors.** -/
theorem nodup_numberedFirsts (document : MarkdownNode) :
    ((numberedFirsts document).map (·.anchorId)).Nodup := by
  have hlabels : ((numberedFirsts document).map (·.footnoteLabel)).Nodup := nodup_firstsBy _ _
  rw [List.nodup_map_iff_inj_on (hlabels.of_map _)]
  intro a ha b hb heq
  obtain ⟨hmem, hanchor⟩ := anchorId_numberedFirsts ha
  obtain ⟨hmem', hanchor'⟩ := anchorId_numberedFirsts hb
  rw [hanchor, hanchor'] at heq
  have hidx := footnoteDefinitionAnchorId_inj (Nat.le_add_left _ _) (Nat.le_add_left _ _) heq
  have hlabel : a.footnoteLabel = b.footnoteLabel :=
    (List.idxOf_inj hmem).mp (Nat.add_right_cancel hidx)
  exact List.inj_on_of_nodup_map hlabels ha hb hlabel

/-- **The anchors of footnotes** are those of the numbers up to the number of labels. -/
theorem mem_numberedFirsts (document : MarkdownNode) (anchor : List Char) :
    anchor ∈ (numberedFirsts document).map (·.anchorId) ↔
      ∃ n, 1 ≤ n ∧ n ≤ (firsts (definitionLabels document)).length ∧
        anchor = footnoteDefinitionAnchorId n := by
  constructor
  · intro h
    obtain ⟨fields, hfields, rfl⟩ := List.mem_map.mp h
    obtain ⟨hmem, hanchor⟩ := anchorId_numberedFirsts hfields
    exact ⟨_, Nat.le_add_left _ _, List.idxOf_lt_length_of_mem hmem, hanchor⟩
  · rintro ⟨n, hpos, hle, rfl⟩
    have hlt : n - 1 < (firsts (definitionLabels document)).length := by omega
    have hmem := mem_firsts.mp (List.getElem_mem hlt)
    obtain ⟨definition, hdefinition, hlabel⟩ := List.mem_map.mp hmem
    obtain ⟨first, hfirst, hkey⟩ := exists_mem_firstsBy
      (List.mem_map_of_mem (f := numberDefinition (firsts (definitionLabels document)))
        hdefinition) (List.not_mem_nil : (numberDefinition (firsts (definitionLabels document))
          definition).footnoteLabel ∉ [])
    have hsame : first.footnoteLabel = definition.footnoteLabel := hkey
    refine List.mem_map.mpr ⟨first, hfirst, ?_⟩
    rw [(anchorId_numberedFirsts hfirst).2, hsame, hlabel, nodup_firsts.idxOf_getElem,
      Nat.sub_add_cancel hpos]

/-- **No name is the anchor of a footnote.** -/
theorem disjoint_iff (bases : List (List Char)) (length : Nat) :
    (∀ anchor ∈ (numbered bases).map anchorText,
        ∀ n, 1 ≤ n → n ≤ length → anchor ≠ footnoteDefinitionAnchorId n) ↔
      (∀ n, 1 ≤ n → n ≤ length → footnoteDefinitionAnchorId n ∉ bases) ∧
        (2 ≤ length → bases.count "fn".toList < 2) := by
  have hfn : ∀ n, 1 ≤ n →
      footnoteDefinitionAnchorId n = "fn".toList ++ '-' :: number n := fun n hpos => by
    rw [footnoteDefinitionAnchorId, if_pos (Nat.lt_of_succ_le hpos)]
    rfl
  constructor
  · intro h
    refine ⟨fun n hpos hle hmem => ?_, fun hlength => ?_⟩
    · have hname : (footnoteDefinitionAnchorId n, 1) ∈ numbered bases :=
        mem_numbered.mpr ⟨Nat.one_pos, List.count_pos_iff.mpr hmem⟩
      exact h _ (List.mem_map_of_mem hname) n hpos hle (if_pos rfl)
    · by_contra hcount
      have hname : ("fn".toList, 2) ∈ numbered bases := mem_numbered.mpr ⟨by omega, by omega⟩
      refine h _ (List.mem_map_of_mem hname) 2 (by omega) hlength ?_
      rw [hfn 2 (by omega)]
      rfl
  · rintro ⟨hbases, hcount⟩ anchor hanchor n hpos hle heq
    obtain ⟨⟨base, k⟩, hname, rfl⟩ := List.mem_map.mp hanchor
    rw [mem_numbered] at hname
    rw [anchorText] at heq
    by_cases hk : k = 1
    · simp only [if_pos hk] at heq
      refine hbases n hpos hle (heq ▸ List.count_pos_iff.mp ?_)
      omega
    · simp only [if_neg hk] at heq
      rw [hfn n hpos] at heq
      obtain ⟨rfl, rfl⟩ := counted_inj heq
      have hlt := hcount (by omega)
      omega

variable {document : PreparedDocument}

/-- What is known of the definitions of a finished document. -/
theorem mem_definitions_finalize
    (h : fields ∈ definitions (finalizeDocumentSemantics qt document).document) :
    fields.footnoteLabel ∈ firsts (definitionLabels document.document) ∧
      fields.footnoteOrdinal =
        (firsts (definitionLabels document.document)).idxOf fields.footnoteLabel + 1 := by
  rw [(finalizeDocumentSemantics_document qt document).2.1] at h
  obtain ⟨definition, hdefinition, rfl⟩ := List.mem_map.mp h
  have hmem : definition.footnoteLabel ∈ definitionLabels document.document :=
    List.mem_map_of_mem hdefinition
  exact ⟨mem_firsts.mpr hmem, rfl⟩

/-- **When anchors are distinct.** -/
theorem nodup_anchors_iff :
    (((finalizeDocumentSemantics qt document).document.labels.filterMap headingAnchorOf).filter
        (· ≠ []) ++ (firstDefinitions (finalizeDocumentSemantics qt document).document).map
          (·.anchorId)).Nodup ↔
      Uncounted (headingBases qt document.document) ∧
        (∀ n, 1 ≤ n → n ≤ (firsts (definitionLabels document.document)).length →
          footnoteDefinitionAnchorId n ∉ headingBases qt document.document) ∧
        (2 ≤ (firsts (definitionLabels document.document)).length →
          (headingBases qt document.document).count "fn".toList < 2) := by
  obtain ⟨hheadings, hdefinitions, -⟩ := finalizeDocumentSemantics_document qt document
  have hfirsts : firstDefinitions (finalizeDocumentSemantics qt document).document =
      numberedFirsts document.document := by
    rw [firstDefinitions, hdefinitions, numberedFirsts]
  rw [hheadings, filter_anchorText, hfirsts, List.nodup_append, nodup_numbered_iff,
    ← disjoint_iff]
  refine and_congr_right fun _ => ?_
  rw [and_iff_right (nodup_numberedFirsts _)]
  refine forall₂_congr fun anchor _ => ?_
  simp only [mem_numberedFirsts]
  constructor
  · exact fun h n hpos hle heq => h _ ⟨n, hpos, hle, rfl⟩ heq
  · rintro h other ⟨n, hpos, hle, rfl⟩
    exact h n hpos hle

/-- **When references have definitions.** -/
theorem references_finalize_iff :
    (∀ reference ∈ references (finalizeDocumentSemantics qt document).document,
      reference.footnoteOrdinal ≠ 0 →
        ∃ definition ∈ definitions (finalizeDocumentSemantics qt document).document,
          definition.footnoteLabel = reference.footnoteLabel ∧
            definition.anchorId = footnoteDefinitionAnchorId reference.footnoteOrdinal) ↔
      ∀ reference ∈ references document.document,
        reference.footnoteLabel ∉ definitionLabels document.document →
          reference.footnoteOrdinal = 0 := by
  obtain ⟨-, hdefinitions, hreferences⟩ := finalizeDocumentSemantics_document qt document
  constructor
  · intro h reference hreference hnone
    by_contra hne
    have hunresolved : resolveReference (firsts (definitionLabels document.document)) reference =
        reference := if_neg fun hmem => hnone (mem_firsts.mp hmem)
    have hmem : reference ∈ references (finalizeDocumentSemantics qt document).document := by
      rw [hreferences]
      exact List.mem_map.mpr ⟨reference, hreference, hunresolved⟩
    obtain ⟨definition, hdefinition, hlabel, -⟩ := h reference hmem hne
    have hdefined := (mem_definitions_finalize hdefinition).1
    rw [hlabel] at hdefined
    exact hnone (mem_firsts.mp hdefined)
  · intro h reference hreference hne
    rw [hreferences] at hreference
    obtain ⟨original, horiginal, rfl⟩ := List.mem_map.mp hreference
    rw [resolveReference] at hne ⊢
    by_cases hmem : original.footnoteLabel ∈ firsts (definitionLabels document.document)
    · simp only [if_pos hmem] at hne ⊢
      obtain ⟨definition, hdefinition, hlabel⟩ := List.mem_map.mp (mem_firsts.mp hmem)
      refine ⟨numberDefinition (firsts (definitionLabels document.document)) definition, ?_,
        hlabel, ?_⟩
      · rw [hdefinitions]
        exact List.mem_map_of_mem hdefinition
      · rw [numberDefinition, hlabel]
    · simp only [if_neg hmem] at hne ⊢
      exact absurd (h original horiginal fun hdefined => hmem (mem_firsts.mpr hdefined)) hne

/-- **Anchors are unambiguous** if and only if no name of a heading is another one with a count or
the anchor of a footnote, and no reference without a definition has a number already. -/
theorem finalizeDocumentSemantics_iff (qt : Toolkit) (document : PreparedDocument) :
    Unambiguous (finalizeDocumentSemantics qt document).document ↔
      Apart qt document.document := by
  constructor
  · intro h
    obtain ⟨huncounted, hfootnotes, hcounted⟩ := nodup_anchors_iff.mp h.anchors
    exact ⟨huncounted, hfootnotes, hcounted, references_finalize_iff.mp h.references⟩
  · intro h
    refine ⟨nodup_anchors_iff.mpr ⟨h.uncounted, h.footnotes, h.counted⟩,
      references_finalize_iff.mpr h.references, fun a ha b hb hlabels hordinals => ?_⟩
    obtain ⟨hmem, hordinal⟩ := mem_definitions_finalize ha
    obtain ⟨-, hordinal'⟩ := mem_definitions_finalize hb
    rw [hordinal, hordinal'] at hordinals
    exact hlabels ((List.idxOf_inj hmem).mp (Nat.add_right_cancel hordinals))

/-- The headings `a`, `a` and `a-2`. -/
def headingsOfA : MarkdownNode :=
  .node { kind := .Document }
    [.node { kind := .Heading } [.node { kind := .Text, text := ['a'] } []],
      .node { kind := .Heading } [.node { kind := .Text, text := ['a'] } []],
      .node { kind := .Heading } [.node { kind := .Text, text := ['a', '-', '2'] } []]]

/-- Two of them have the anchor `a-2`. -/
theorem not_finalizeDocumentSemantics :
    ¬Unambiguous (finalizeDocumentSemantics asciiToolkit { document := headingsOfA }).document :=
  fun h => absurd h.anchors (by decide)

end Markdown

end Iv

end MessengerClient
