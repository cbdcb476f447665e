import MessengerClient.Markdown.Document
import Mathlib

/-!
# MessengerClient.Markdown.DisplayMath

Display formulas in the tree of a document, of `iv/markdown/iv_markdown_parse_finalize.cpp`: they
are handed down to the blocks that contain them, and a paragraph is split around its own.

Splitting clips the paragraph to what is between the formulas.  Each byte that a text of the
paragraph has is then in one text again, if it is in no formula
(`coverAll_splitParagraphAroundDisplayMath`).
-/

namespace MessengerClient

namespace Iv

namespace Markdown

open Texts

def sourceSlice (source : Bytes) (range : SourceRange) : List Char :=
  if !range.available then []
  else
    let sourceSize : Int := source.length
    let start := clamp range.startOffset 0 sourceSize
    let end_ := clamp range.endOffset start sourceSize
    fromUtf8 ((source.drop start.toNat).take (end_ - start).toNat)

def displayMathNode (formula : MathFormula) (vectorIndex : Nat) : MarkdownNode :=
  .node {
    kind := .DisplayMath
    range := formula.range
    text := fromUtf8 formula.tex
    formulaIndex := vectorIndex } []

def rangeEndOffset (range : SourceRange) : Int :=
  if range.available then range.endOffset else -2 ^ 31

def rangeStartOffset (range : SourceRange) : Int :=
  if range.available then range.startOffset else 2 ^ 31 - 1

def isBreakNode (kind : NodeKind) : Bool := kind = .SoftBreak || kind = .LineBreak

def trimBreakEdges (children : List MarkdownNode) : List MarkdownNode :=
  (children.dropWhile fun child => isBreakNode child.label.kind).rdropWhile fun child =>
    isBreakNode child.label.kind

def rangeContains (outer inner : SourceRange) : Bool :=
  outer.available && inner.available && outer.startOffset ≤ inner.startOffset
    && outer.endOffset ≥ inner.endOffset

def rangeOverlaps (range : SourceRange) (clipStart clipEnd : Int) : Bool :=
  range.available && range.endOffset > clipStart && range.startOffset < clipEnd

mutual

def firstAvailableRange : MarkdownNode → Option SourceRange
  | .node fields children =>
    if fields.range.available then some fields.range else firstAvailableRangeInChildren children

def firstAvailableRangeInChildren : List MarkdownNode → Option SourceRange
  | [] => none
  | child :: children => (firstAvailableRange child).or (firstAvailableRangeInChildren children)

end

mutual

def lastAvailableRange : MarkdownNode → Option SourceRange
  | .node fields children =>
    if fields.range.available then some fields.range else lastAvailableRangeInChildren children

def lastAvailableRangeInChildren : List MarkdownNode → Option SourceRange
  | [] => none
  | child :: children => (lastAvailableRangeInChildren children).or (lastAvailableRange child)

end

def rangeFromChildren (children : List MarkdownNode) : Option SourceRange :=
  match firstAvailableRangeInChildren children, lastAvailableRangeInChildren children with
  | some first, some last =>
    some { first with
      endLine := last.endLine
      endColumn := last.endColumn
      endOffset := last.endOffset }
  | _, _ => none

section

variable (source : Bytes) (lineStarts : List Int) (clipStart clipEnd : Int)

/-- A node without children in `ClipNodeToOffsets`. -/
def clipLeaf (fields : NodeFields) : Option NodeFields :=
  if !fields.range.available then none
  else
    let clippedStart := max fields.range.startOffset clipStart
    let clippedEnd := min fields.range.endOffset clipEnd
    if clippedEnd ≤ clippedStart then none
    else
      let range := rangeForOffsets lineStarts source.length clippedStart clippedEnd
      if clippedStart = fields.range.startOffset ∧ clippedEnd = fields.range.endOffset then
        some { fields with range }
      else
        match fields.kind with
        | .Text | .InlineCode => some { fields with range, text := sourceSlice source range }
        | .HtmlBlock | .HtmlInline | .Unsupported =>
          some { fields with range, raw := sourceSlice source range }
        | _ => none

mutual

def clipNodeToOffsets : MarkdownNode → Option MarkdownNode
  | .node fields children =>
    if clipEnd ≤ clipStart ∨ isBreakNode fields.kind then none
    else if fields.range.available ∧ !rangeOverlaps fields.range clipStart clipEnd then none
    else if children.isEmpty then
      (clipLeaf source lineStarts clipStart clipEnd fields).map fun fields => .node fields []
    else
      let clipped := trimBreakEdges (clipChildren false children)
      if clipped.isEmpty then none
      else
        some (.node { fields with range := (rangeFromChildren clipped).getD fields.range } clipped)

/-- The loop over the children, with whether there was one that is left. -/
def clipChildren : Bool → List MarkdownNode → List MarkdownNode
  | _, [] => []
  | started, child :: children =>
    if isBreakNode child.label.kind then
      if started then child :: clipChildren true children else clipChildren false children
    else
      match clipNodeToOffsets child with
      | none => clipChildren started children
      | some clipped => clipped :: clipChildren true children

end

end

section

variable (source : Bytes) (lineStarts : List Int)

def paragraphSegment (paragraph : MarkdownNode) (clipStart clipEnd : Int) : Option MarkdownNode :=
  if clipEnd ≤ clipStart then none
  else clipNodeToOffsets source lineStarts clipStart clipEnd paragraph

/-- A formula with its index. -/
abbrev IndexedFormula : Type := MathFormula × Nat

/-- The loop over the formulas of a paragraph, and what is behind them. -/
def splitLoop (paragraph : MarkdownNode) : Int → List IndexedFormula → List MarkdownNode
  | cursor, [] =>
    (paragraphSegment source lineStarts paragraph cursor paragraph.label.range.endOffset).toList
  | cursor, (formula, index) :: formulas =>
    if !rangeContains paragraph.label.range formula.range then splitLoop paragraph cursor formulas
    else
      (paragraphSegment source lineStarts paragraph cursor formula.range.startOffset).toList
        ++ displayMathNode formula index
          :: splitLoop paragraph (max cursor formula.range.endOffset) formulas

def splitParagraphAroundDisplayMath (paragraph : MarkdownNode) (formulas : List IndexedFormula) :
    List MarkdownNode :=
  if !paragraph.label.range.available then [paragraph]
  else splitLoop source lineStarts paragraph paragraph.label.range.startOffset formulas

def indexLess (left right : IndexedFormula) : Bool :=
  let leftOffset := rangeStartOffset left.1.range
  let rightOffset := rangeStartOffset right.1.range
  if leftOffset ≠ rightOffset then leftOffset < rightOffset else left.2 < right.2

/-- `DisplayFormulaIndexes`, with the formula for each index. -/
def displayFormulaIndexes (formulas : List MathFormula) : List IndexedFormula :=
  (formulas.zipIdx.filter fun formula => formula.1.kind = .Display).mergeSort fun left right =>
    !indexLess right left

def canNormalizeDisplayMathChildren (kind : NodeKind) : Bool :=
  kind = .Document || kind = .List || kind = .ListItem || kind = .Blockquote || kind = .Table
    || kind = .TableRow

/-- A formula that ends before a node. -/
def endsBefore (child : MarkdownNode) (formula : IndexedFormula) : Bool :=
  child.label.range.available
    && rangeEndOffset formula.1.range ≤ child.label.range.startOffset

mutual

def normalizeDisplayMathChildren : MarkdownNode → List IndexedFormula → MarkdownNode
  | .node fields children, formulas =>
    if formulas.isEmpty || children.isEmpty then .node fields children
    else .node fields (normalizeLoop children formulas)

/-- The loop over the children, with the formulas that are left. -/
def normalizeLoop : List MarkdownNode → List IndexedFormula → List MarkdownNode
  | [], formulas => formulas.map fun formula => displayMathNode formula.1 formula.2
  | child :: children, formulas =>
    let before := (formulas.takeWhile (endsBefore child)).map fun formula =>
      displayMathNode formula.1 formula.2
    let formulas := formulas.dropWhile (endsBefore child)
    let inside := formulas.takeWhile fun formula =>
      rangeContains child.label.range formula.1.range
    let rest := formulas.dropWhile fun formula => rangeContains child.label.range formula.1.range
    before ++
      if !inside.isEmpty && child.label.kind = .Paragraph then
        splitParagraphAroundDisplayMath source lineStarts child inside
          ++ normalizeLoop children rest
      else if !inside.isEmpty && child.label.kind = .TableCell then
        child :: normalizeLoop children rest
      else if !inside.isEmpty && canNormalizeDisplayMathChildren child.label.kind then
        normalizeDisplayMathChildren child inside :: normalizeLoop children rest
      else child :: normalizeLoop children formulas

end

def countNodes (node : MarkdownNode) : Nat := node.preorder.length

def normalizeDisplayMathBlocks (document : PreparedDocument) : PreparedDocument :=
  let formulas := displayFormulaIndexes document.formulas
  let normalized :=
    if formulas.isEmpty then document.document
    else normalizeDisplayMathChildren source lineStarts document.document formulas
  { document with document := normalized, convertedNodeCount := countNodes normalized }

end

/-! ## What is shown -/

/-- The kinds of texts. -/
def IsText (kind : NodeKind) : Prop := kind = .Text ∨ kind = .InlineCode

instance (kind : NodeKind) : Decidable (IsText kind) := inferInstanceAs (Decidable (_ ∨ _))

mutual

/-- The texts that are shown, but those of table cells. -/
def leaves : MarkdownNode → List NodeFields
  | .node fields children =>
    if fields.kind = .TableCell then []
    else if children.isEmpty then
      if IsText fields.kind then [fields] else []
    else leavesAll children

def leavesAll : List MarkdownNode → List NodeFields
  | [] => []
  | node :: nodes => leaves node ++ leavesAll nodes

end

/-- A byte of a range. -/
def SourceRange.Covers (range : SourceRange) (byte : Int) : Prop :=
  range.available ∧ range.startOffset ≤ byte ∧ byte < range.endOffset

instance (range : SourceRange) (byte : Int) : Decidable (range.Covers byte) :=
  inferInstanceAs (Decidable (_ ∧ _ ∧ _))

/-- How often a byte is shown. -/
def cover (node : MarkdownNode) (byte : Int) : Nat :=
  (leaves node).countP (·.range.Covers byte)

def coverAll (nodes : List MarkdownNode) (byte : Int) : Nat :=
  (leavesAll nodes).countP (·.range.Covers byte)

/-- The formulas that are shown. -/
def mathNodes (node : MarkdownNode) : List NodeFields :=
  node.labels.filter (·.kind = .DisplayMath)

variable {source : Bytes} {fields leaf : NodeFields} {node child : MarkdownNode}
  {children nodes : List MarkdownNode} {byte clipStart clipEnd : Int}

theorem leavesAll_eq_flatMap (nodes : List MarkdownNode) :
    leavesAll nodes = nodes.flatMap leaves := by
  induction nodes with
  | nil => rfl
  | cons node nodes ih => rw [leavesAll, ih, List.flatMap_cons]

@[simp] theorem coverAll_nil (byte : Int) : coverAll [] byte = 0 := rfl

@[simp] theorem coverAll_cons (node : MarkdownNode) (nodes : List MarkdownNode) (byte : Int) :
    coverAll (node :: nodes) byte = cover node byte + coverAll nodes byte := by
  rw [coverAll, leavesAll, List.countP_append]
  rfl

@[simp] theorem coverAll_append (front back : List MarkdownNode) (byte : Int) :
    coverAll (front ++ back) byte = coverAll front byte + coverAll back byte := by
  induction front with
  | nil => simp
  | cons node front ih => rw [List.cons_append, coverAll_cons, ih, coverAll_cons, Nat.add_assoc]

@[simp] theorem leaves_displayMathNode (formula : MathFormula) (index : Nat) :
    leaves (displayMathNode formula index) = [] := rfl

@[simp] theorem cover_displayMathNode (formula : MathFormula) (index : Nat) (byte : Int) :
    cover (displayMathNode formula index) byte = 0 := rfl

theorem coverAll_displayMathNodes (formulas : List IndexedFormula) (byte : Int) :
    coverAll (formulas.map fun formula => displayMathNode formula.1 formula.2) byte = 0 := by
  induction formulas with
  | nil => rfl
  | cons formula formulas ih => rw [List.map_cons, coverAll_cons, ih, cover_displayMathNode]

theorem cover_node (hkind : fields.kind ≠ .TableCell) (hne : children ≠ []) (byte : Int) :
    cover (.node fields children) byte = coverAll children byte := by
  rw [cover, leaves, if_neg hkind, if_neg (by simpa using hne)]
  rfl

theorem cover_tableCell (hkind : fields.kind = .TableCell) (byte : Int) :
    cover (.node fields children) byte = 0 := by
  rw [cover, leaves, if_pos hkind]
  rfl

/-! ## Trees with their ranges -/

/-- A node with a range of the source, which contains those of its children, in their order.
Breaks have no children, containers have some, and no formula is displayed yet. -/
structure Placed (source : Bytes) (node : MarkdownNode) : Prop where
  available : node.label.range.available
  start : 0 ≤ node.label.range.startOffset
  ordered : node.label.range.startOffset ≤ node.label.range.endOffset
  inside : node.label.range.endOffset ≤ source.length
  children : ∀ child ∈ node.children,
    node.label.range.startOffset ≤ child.label.range.startOffset ∧
      child.label.range.endOffset ≤ node.label.range.endOffset
  siblings : node.children.Pairwise fun a b => a.label.range.endOffset ≤ b.label.range.startOffset
  breaks : isBreakNode node.label.kind → node.children = []
  containers : canNormalizeDisplayMathChildren node.label.kind → node.children ≠ []
  math : node.label.kind ≠ .DisplayMath

def WellPlaced (source : Bytes) (node : MarkdownNode) : Prop :=
  ∀ below ∈ node.preorder, Placed source below

theorem wellPlaced_node : WellPlaced source (.node fields children) ↔
    Placed source (.node fields children) ∧ ∀ child ∈ children, WellPlaced source child := by
  rw [WellPlaced, RoseTree.preorder_node, List.forall_mem_cons]
  refine and_congr_right fun _ => ?_
  constructor
  · exact fun h child hchild below hbelow => h below (List.mem_flatMap.mpr ⟨child, hchild, hbelow⟩)
  · intro h below hbelow
    obtain ⟨child, hchild, hbelow⟩ := List.mem_flatMap.mp hbelow
    exact h child hchild below hbelow

theorem WellPlaced.placed (h : WellPlaced source node) : Placed source node := by
  obtain ⟨fields, children⟩ := node
  exact (wellPlaced_node.mp h).1

theorem WellPlaced.of_child (h : WellPlaced source node) (hchild : child ∈ node.children) :
    WellPlaced source child := by
  obtain ⟨fields, children⟩ := node
  exact (wellPlaced_node.mp h).2 child hchild

/-- **Texts are in the ranges of the nodes above them.** -/
theorem WellPlaced.of_leaf (h : WellPlaced source node) (hleaf : leaf ∈ leaves node) :
    node.label.range.startOffset ≤ leaf.range.startOffset ∧
      leaf.range.endOffset ≤ node.label.range.endOffset := by
  induction node using RoseTree.induction with
  | hnode fields children ih =>
    rw [leaves] at hleaf
    split at hleaf
    · cases hleaf
    · split at hleaf
      · split at hleaf
        · obtain rfl := List.mem_singleton.mp hleaf
          exact ⟨le_rfl, le_rfl⟩
        · cases hleaf
      · rw [leavesAll_eq_flatMap] at hleaf
        obtain ⟨child, hchild, hleaf⟩ := List.mem_flatMap.mp hleaf
        obtain ⟨hplaced, hchildren⟩ := wellPlaced_node.mp h
        have hbelow := ih child hchild (hchildren child hchild) hleaf
        have hinside := hplaced.children child hchild
        exact ⟨hinside.1.trans hbelow.1, hbelow.2.trans hinside.2⟩

/-- No byte outside of a node is shown by it. -/
theorem WellPlaced.cover_eq_zero (h : WellPlaced source node)
    (hbyte : ¬node.label.range.Covers byte) : cover node byte = 0 := by
  rw [cover, List.countP_eq_zero]
  intro leaf hleaf hcovers
  rw [decide_eq_true_eq] at hcovers
  have hinside := h.of_leaf hleaf
  exact hbyte ⟨h.placed.available, hinside.1.trans hcovers.2.1, hcovers.2.2.trans_le hinside.2⟩

/-! ## Clipping -/

/-- Whether a byte is in what a node is clipped to. -/
def Clipped (clipStart clipEnd byte : Int) : Prop := clipStart ≤ byte ∧ byte < clipEnd

instance : Decidable (Clipped clipStart clipEnd byte) := inferInstanceAs (Decidable (_ ∧ _))

/-- A break shows nothing. -/
theorem cover_break (h : WellPlaced source node) (hbreak : isBreakNode node.label.kind)
    (byte : Int) : cover node byte = 0 := by
  obtain ⟨fields, children⟩ := node
  have hnil : children = [] := h.placed.breaks hbreak
  subst hnil
  rw [RoseTree.label_node, isBreakNode, Bool.or_eq_true, decide_eq_true_eq, decide_eq_true_eq]
    at hbreak
  rw [cover, leaves]
  obtain hkind | hkind := hbreak <;> simp [hkind, IsText]

/-- Breaks at the edges are not missed. -/
theorem coverAll_trimBreakEdges
    (h : ∀ node ∈ nodes, isBreakNode node.label.kind → cover node byte = 0) :
    coverAll (trimBreakEdges nodes) byte = coverAll nodes byte := by
  have hfront : coverAll (nodes.dropWhile fun child => isBreakNode child.label.kind) byte =
      coverAll nodes byte := by
    induction nodes with
    | nil => rfl
    | cons node nodes ih =>
      obtain ⟨hnode, hnodes⟩ := List.forall_mem_cons.mp h
      rw [List.dropWhile_cons]
      split
      · next hbreak => rw [ih hnodes, coverAll_cons, hnode hbreak, Nat.zero_add]
      · rfl
  have hmem : ∀ node ∈ nodes.dropWhile fun child => isBreakNode child.label.kind,
      isBreakNode node.label.kind → cover node byte = 0 :=
    fun node hnode => h node ((List.dropWhile_sublist _).mem hnode)
  rw [trimBreakEdges, ← hfront]
  generalize nodes.dropWhile (fun child => isBreakNode child.label.kind) = rest at hmem
  induction rest using List.reverseRecOn with
  | nil => rfl
  | append_singleton rest last ih =>
    rw [List.rdropWhile_concat]
    split
    · next hbreak =>
      rw [ih fun node hnode => hmem node (List.mem_append_left _ hnode), coverAll_append,
        coverAll_cons, hmem last (by simp) hbreak, coverAll_nil, Nat.zero_add, Nat.add_zero]
    · rfl

/-- **The range for two offsets** covers what is between them. -/
theorem covers_rangeForOffsets {start end_ : Int} (hstart : 0 ≤ start) (hlt : start < end_)
    (hend : end_ ≤ source.length) :
    (rangeForOffsets (buildLineStarts source) source.length start end_).Covers byte ↔
      start ≤ byte ∧ byte < end_ := by
  obtain ⟨m, rfl⟩ := Int.eq_ofNat_of_zero_le hstart
  obtain ⟨n, rfl⟩ := Int.eq_ofNat_of_zero_le (hstart.trans hlt.le)
  obtain ⟨havailable, hfirst, hlast, -⟩ :=
    @rangeForOffsets_spec source m n (by omega) (by omega)
  rw [SourceRange.Covers, havailable, hfirst, hlast]
  simp

theorem cover_leaf (fields : NodeFields) (byte : Int) :
    cover (.node fields []) byte =
      if IsText fields.kind ∧ fields.range.Covers byte then 1 else 0 := by
  rw [cover, leaves, List.isEmpty_nil, if_pos rfl]
  by_cases hkind : IsText fields.kind
  · have hcell : fields.kind ≠ .TableCell := by
      obtain hkind | hkind := hkind <;> simp [hkind]
    rw [if_neg hcell, if_pos hkind, List.countP_singleton]
    simp [hkind]
  · rw [if_neg hkind, ite_self, if_neg fun h => hkind h.1]
    rfl

section

variable {lineStarts : List Int} {fields' : NodeFields}

theorem clipLeaf_kind (h : clipLeaf source lineStarts clipStart clipEnd fields = some fields') :
    fields'.kind = fields.kind := by
  rw [clipLeaf] at h
  split at h
  · cases h
  · simp only at h
    split at h
    · cases h
    · split at h
      · cases h
        rfl
      · split at h <;> cases h <;> rfl

/-- A text keeps what is between the offsets. -/
theorem clipLeaf_text (hkind : IsText fields.kind) (havailable : fields.range.available)
    (hne : max fields.range.startOffset clipStart < min fields.range.endOffset clipEnd) :
    ∃ fields', clipLeaf source lineStarts clipStart clipEnd fields = some fields' ∧
      fields'.range = rangeForOffsets lineStarts source.length
        (max fields.range.startOffset clipStart) (min fields.range.endOffset clipEnd) := by
  rw [clipLeaf, if_neg (by simp [havailable])]
  simp only
  rw [if_neg (not_le.mpr hne)]
  split
  · exact ⟨_, rfl, rfl⟩
  · obtain hkind | hkind := hkind <;> rw [hkind] <;> exact ⟨_, rfl, rfl⟩

theorem clipLeaf_empty
    (hempty : min fields.range.endOffset clipEnd ≤ max fields.range.startOffset clipStart) :
    clipLeaf source lineStarts clipStart clipEnd fields = none := by
  rw [clipLeaf]
  split
  · rfl
  · exact if_pos hempty

end

/-- **A leaf that is clipped** shows the bytes of it that are between the offsets. -/
theorem coverAll_clipLeaf (h : Placed source (.node fields [])) (byte : Int) :
    coverAll ((clipLeaf source (buildLineStarts source) clipStart clipEnd fields).map
        fun fields => .node fields []).toList byte =
      if Clipped clipStart clipEnd byte then cover (.node fields []) byte else 0 := by
  have havailable : fields.range.available := h.available
  have hstart : 0 ≤ fields.range.startOffset := h.start
  have hinside : fields.range.endOffset ≤ source.length := h.inside
  have hboth : max fields.range.startOffset clipStart ≤ byte ∧
      byte < min fields.range.endOffset clipEnd ↔
        Clipped clipStart clipEnd byte ∧ fields.range.Covers byte := by
    rw [Clipped, SourceRange.Covers, max_le_iff, lt_min_iff]
    tauto
  rw [cover_leaf, ← ite_and]
  by_cases hkind : IsText fields.kind
  · by_cases hne : max fields.range.startOffset clipStart < min fields.range.endOffset clipEnd
    · obtain ⟨fields', hclip, hrange⟩ := @clipLeaf_text source fields clipStart clipEnd
        (buildLineStarts source) hkind havailable hne
      have hcovers := @covers_rangeForOffsets source byte _ _ (hstart.trans (le_max_left _ _)) hne
        ((min_le_left _ _).trans hinside)
      rw [hclip, Option.map_some, Option.toList_some, coverAll_cons, coverAll_nil, Nat.add_zero,
        cover_leaf, clipLeaf_kind hclip, hrange]
      refine if_congr ?_ rfl rfl
      rw [hcovers, hboth]
      exact and_left_comm
    · rw [clipLeaf_empty (not_lt.mp hne), if_neg]
      · rfl
      · rintro ⟨hclipped, -, hcovers⟩
        obtain ⟨hfirst, hlast⟩ := hboth.mpr ⟨hclipped, hcovers⟩
        exact hne (hfirst.trans_lt hlast)
  · rw [if_neg fun h => hkind h.2.1]
    cases hclip : clipLeaf source (buildLineStarts source) clipStart clipEnd fields with
    | none => rfl
    | some fields' =>
      rw [Option.map_some, Option.toList_some, coverAll_cons, coverAll_nil, cover_leaf,
        clipLeaf_kind hclip, if_neg fun h => hkind h.1]

theorem clipNodeToOffsets_kind {lineStarts : List Int} {clipped : MarkdownNode}
    (h : clipNodeToOffsets source lineStarts clipStart clipEnd node = some clipped) :
    clipped.label.kind = node.label.kind ∧ ¬isBreakNode node.label.kind := by
  obtain ⟨fields, children⟩ := node
  rw [clipNodeToOffsets] at h
  split at h
  · cases h
  · next hbreak =>
    rw [not_or] at hbreak
    refine ⟨?_, hbreak.2⟩
    split at h
    · cases h
    · split at h
      · obtain ⟨fields', hclip, rfl⟩ := Option.map_eq_some_iff.mp h
        exact clipLeaf_kind hclip
      · simp only at h
        split at h
        · cases h
        · cases h
          rfl

/-- What a list of nodes shows when it is clipped. -/
def ClippedCover (source : Bytes) (clipStart clipEnd byte : Int) (nodes : List MarkdownNode)
    (started : Bool) : Prop :=
  (∀ node ∈ clipChildren source (buildLineStarts source) clipStart clipEnd started nodes,
    isBreakNode node.label.kind → cover node byte = 0) ∧
  coverAll (clipChildren source (buildLineStarts source) clipStart clipEnd started nodes) byte =
    if Clipped clipStart clipEnd byte then coverAll nodes byte else 0

/-- What a node is clipped to if it is not skipped. -/
def clipInside (source : Bytes) (lineStarts : List Int) (clipStart clipEnd : Int)
    (fields : NodeFields) (children : List MarkdownNode) : Option MarkdownNode :=
  if children.isEmpty then
    (clipLeaf source lineStarts clipStart clipEnd fields).map fun fields => .node fields []
  else
    let clipped := trimBreakEdges (clipChildren source lineStarts clipStart clipEnd false children)
    if clipped.isEmpty then none
    else some (.node { fields with range := (rangeFromChildren clipped).getD fields.range } clipped)

/-- A node that is skipped shows nothing between the offsets. -/
theorem coverAll_clip_of_inside (h : WellPlaced source (.node fields children))
    (hinside : coverAll (clipInside source (buildLineStarts source) clipStart clipEnd fields
        children).toList byte =
      if Clipped clipStart clipEnd byte then cover (.node fields children) byte else 0) :
    coverAll (clipNodeToOffsets source (buildLineStarts source) clipStart clipEnd
        (.node fields children)).toList byte =
      if Clipped clipStart clipEnd byte then cover (.node fields children) byte else 0 := by
  rw [clipNodeToOffsets]
  split
  · next hskip =>
    obtain hempty | hbreak := hskip
    · rw [if_neg fun hclipped => not_lt.mpr hempty (hclipped.1.trans_lt hclipped.2)]
      rfl
    · rw [cover_break h hbreak, ite_self]
      rfl
  · split
    · next hout =>
      obtain ⟨havailable, hout⟩ := hout
      split
      · next hclipped =>
        rw [h.cover_eq_zero]
        · rfl
        · rintro ⟨-, hfirst, hlast⟩
          simp only [RoseTree.label_node] at hfirst hlast
          simp only [rangeOverlaps, havailable, Bool.true_and, Bool.not_eq_true',
            Bool.and_eq_false_iff, decide_eq_false_iff_not, not_lt] at hout
          obtain ⟨hclip, hclip'⟩ := hclipped
          omega
      · rfl
    · exact hinside

/-- A node with children. -/
theorem coverAll_clipInside (hne : children ≠ [])
    (hchildren : ClippedCover source clipStart clipEnd byte children false) :
    coverAll (clipInside source (buildLineStarts source) clipStart clipEnd fields
        children).toList byte =
      if Clipped clipStart clipEnd byte then cover (.node fields children) byte else 0 := by
  have htrim := coverAll_trimBreakEdges hchildren.1
  rw [hchildren.2] at htrim
  rw [clipInside, if_neg (by simpa using hne)]
  generalize trimBreakEdges _ = clipped at htrim
  by_cases hcell : fields.kind = .TableCell
  · rw [cover_tableCell hcell, ite_self]
    simp only
    split
    · rfl
    · rw [Option.toList_some, coverAll_cons, coverAll_nil, cover_tableCell]
      exact hcell
  · rw [cover_node hcell hne, ← htrim]
    simp only
    split
    · next hnil =>
      rw [List.isEmpty_iff.mp hnil]
      rfl
    · next hleft =>
      rw [Option.toList_some, coverAll_cons, coverAll_nil, Nat.add_zero, cover_node]
      · exact hcell
      · simpa using hleft

/-- A node before others. -/
theorem clippedCover_cons (h : WellPlaced source node)
    (hnode : coverAll (clipNodeToOffsets source (buildLineStarts source) clipStart clipEnd
        node).toList byte = if Clipped clipStart clipEnd byte then cover node byte else 0)
    (hnodes : ∀ started, ClippedCover source clipStart clipEnd byte nodes started)
    (started : Bool) : ClippedCover source clipStart clipEnd byte (node :: nodes) started := by
  rw [ClippedCover, clipChildren]
  by_cases hbreak : isBreakNode node.label.kind
  · have hzero := cover_break h hbreak byte
    rw [if_pos hbreak, coverAll_cons, hzero, Nat.zero_add]
    cases started with
    | true =>
      refine ⟨List.forall_mem_cons.mpr ⟨fun _ => hzero, (hnodes true).1⟩, ?_⟩
      rw [if_pos rfl, coverAll_cons, hzero, Nat.zero_add, (hnodes true).2]
    | false => exact hnodes false
  · rw [if_neg hbreak]
    cases hclip : clipNodeToOffsets source (buildLineStarts source) clipStart clipEnd node with
    | none =>
      rw [hclip, Option.toList_none, coverAll_nil] at hnode
      refine ⟨(hnodes started).1, ?_⟩
      rw [(hnodes started).2, coverAll_cons]
      split
      · next hclipped =>
        rw [if_pos hclipped] at hnode
        rw [← hnode, Nat.zero_add]
      · rfl
    | some clipped =>
      rw [hclip, Option.toList_some, coverAll_cons, coverAll_nil, Nat.add_zero] at hnode
      refine ⟨List.forall_mem_cons.mpr ⟨fun hbreak' => ?_, (hnodes true).1⟩, ?_⟩
      · rw [(clipNodeToOffsets_kind hclip).1] at hbreak'
        exact absurd hbreak' hbreak
      · rw [coverAll_cons, coverAll_cons, hnode, (hnodes true).2]
        split <;> rfl

/-- **A node that is clipped** shows the bytes of it that are between the offsets, once again. -/
theorem coverAll_clip (source : Bytes) (clipStart clipEnd byte : Int) :
    (∀ node, WellPlaced source node →
      coverAll (clipNodeToOffsets source (buildLineStarts source) clipStart clipEnd node).toList
          byte = if Clipped clipStart clipEnd byte then cover node byte else 0) ∧
    ∀ nodes : List MarkdownNode, (∀ node ∈ nodes, WellPlaced source node) → ∀ started,
      ClippedCover source clipStart clipEnd byte nodes started := by
  refine RoseTree.both (fun fields children ih h => ?_) (fun _ started => ?_)
    fun node nodes hnode hnodes h started => ?_
  · refine coverAll_clip_of_inside h ?_
    cases children with
    | nil => exact coverAll_clipLeaf h.placed byte
    | cons child children =>
      exact coverAll_clipInside (List.cons_ne_nil _ _) (ih (wellPlaced_node.mp h).2 false)
  · have hnil : clipChildren source (buildLineStarts source) clipStart clipEnd started [] = [] := by
      rw [clipChildren]
    rw [ClippedCover, hnil, coverAll_nil, ite_self]
    exact ⟨by simp, rfl⟩
  · obtain ⟨hfirst, hrest⟩ := List.forall_mem_cons.mp h
    exact clippedCover_cons hfirst (hnode hfirst) (hnodes hrest) started

theorem coverAll_paragraphSegment (h : WellPlaced source node) (clipStart clipEnd byte : Int) :
    coverAll (paragraphSegment source (buildLineStarts source) node clipStart clipEnd).toList byte =
      if Clipped clipStart clipEnd byte then cover node byte else 0 := by
  rw [paragraphSegment]
  split
  · next hempty =>
    rw [if_neg fun hclipped => not_lt.mpr hempty (hclipped.1.trans_lt hclipped.2)]
    rfl
  · exact (coverAll_clip source clipStart clipEnd byte).1 node h

/-! ## Splitting -/

/-- Formulas one behind the other, which are not empty. -/
structure InOrder (formulas : List IndexedFormula) : Prop where
  available : ∀ formula ∈ formulas, formula.1.range.available
  positive : ∀ formula ∈ formulas, formula.1.range.startOffset < formula.1.range.endOffset
  sorted : formulas.Pairwise fun a b => a.1.range.endOffset ≤ b.1.range.startOffset

theorem InOrder.sublist {formulas formulas' : List IndexedFormula} (h : InOrder formulas)
    (hsub : formulas'.Sublist formulas) : InOrder formulas' :=
  ⟨fun formula hformula => h.available formula (hsub.mem hformula),
    fun formula hformula => h.positive formula (hsub.mem hformula), h.sorted.sublist hsub⟩

/-- **A paragraph that is split** shows each byte that is in none of its formulas, once again. -/
theorem coverAll_splitLoop (h : WellPlaced source node) {formulas : List IndexedFormula}
    (hformulas : InOrder formulas)
    (hinside : ∀ formula ∈ formulas, rangeContains node.label.range formula.1.range)
    {cursor : Int} (hcursor : ∀ formula ∈ formulas, cursor ≤ formula.1.range.startOffset) :
    coverAll (splitLoop source (buildLineStarts source) node cursor formulas) byte =
      if cursor ≤ byte ∧ ∀ formula ∈ formulas, ¬formula.1.range.Covers byte then cover node byte
      else 0 := by
  induction formulas generalizing cursor with
  | nil =>
    rw [splitLoop, coverAll_paragraphSegment h]
    by_cases hclipped : Clipped cursor node.label.range.endOffset byte
    · rw [if_pos hclipped, if_pos ⟨hclipped.1, by simp⟩]
    · rw [if_neg hclipped]
      split
      · next hbyte =>
        rw [h.cover_eq_zero]
        rintro ⟨-, -, hlast⟩
        exact hclipped ⟨hbyte.1, hlast⟩
      · rfl
  | cons first formulas ih =>
    obtain ⟨formula, index⟩ := first
    obtain ⟨hfirst, hrest⟩ := List.forall_mem_cons.mp hinside
    obtain ⟨hle, -⟩ := List.forall_mem_cons.mp hcursor
    obtain ⟨hbefore, -⟩ := List.pairwise_cons.mp hformulas.sorted
    have havailable := hformulas.available _ List.mem_cons_self
    have hpositive := hformulas.positive _ List.mem_cons_self
    simp only at hfirst hle havailable hpositive
    have hmax : max cursor formula.range.endOffset = formula.range.endOffset :=
      max_eq_right (hle.trans hpositive.le)
    rw [splitLoop, if_neg (by simp [hfirst]), hmax, coverAll_append, coverAll_cons,
      cover_displayMathNode, Nat.zero_add, coverAll_paragraphSegment h,
      ih (hformulas.sublist (List.sublist_cons_self _ _)) hrest hbefore]
    simp only [List.forall_mem_cons]
    by_cases hin : formula.range.Covers byte
    · have hfront : ¬Clipped cursor formula.range.startOffset byte :=
        fun hclipped => not_lt.mpr hin.2.1 hclipped.2
      rw [if_neg hfront, if_neg fun hbyte => not_lt.mpr hbyte.1 hin.2.2,
        if_neg fun hbyte => hbyte.2.1 hin]
    · by_cases hfront : byte < formula.range.startOffset
      · have hothers : ∀ other ∈ formulas, ¬other.1.range.Covers byte := by
          rintro other hother ⟨-, hbyte, -⟩
          have hnext := hbefore other hother
          simp only at hnext
          omega
        have hrest : ¬(formula.range.endOffset ≤ byte ∧
            ∀ other ∈ formulas, ¬other.1.range.Covers byte) := by
          rintro ⟨hlast, -⟩
          omega
        rw [if_neg hrest, Nat.add_zero]
        exact if_congr ⟨fun hclipped => ⟨hclipped.1, hin, hothers⟩,
          fun hbyte => ⟨hbyte.1, hfront⟩⟩ rfl rfl
      · have hbehind : formula.range.endOffset ≤ byte := by
          by_contra hlast
          exact hin ⟨havailable, not_lt.mp hfront, not_le.mp hlast⟩
        rw [if_neg fun hclipped => hfront hclipped.2, Nat.zero_add]
        exact if_congr ⟨fun hbyte => ⟨by omega, hin, hbyte.2⟩,
          fun hbyte => ⟨hbehind, hbyte.2.2⟩⟩ rfl rfl

theorem coverAll_splitParagraphAroundDisplayMath (h : WellPlaced source node)
    {formulas : List IndexedFormula} (hformulas : InOrder formulas)
    (hinside : ∀ formula ∈ formulas, rangeContains node.label.range formula.1.range)
    (byte : Int) :
    coverAll (splitParagraphAroundDisplayMath source (buildLineStarts source) node formulas) byte =
      if ∀ formula ∈ formulas, ¬formula.1.range.Covers byte then cover node byte else 0 := by
  have hstart : ∀ formula ∈ formulas,
      node.label.range.startOffset ≤ formula.1.range.startOffset := by
    intro formula hformula
    have hcontains := hinside formula hformula
    simp only [rangeContains, Bool.and_eq_true, decide_eq_true_eq] at hcontains
    exact hcontains.1.2
  rw [splitParagraphAroundDisplayMath, if_neg (by simp [h.placed.available]),
    coverAll_splitLoop h hformulas hinside hstart]
  by_cases hbyte : node.label.range.startOffset ≤ byte
  · simp only [hbyte, true_and]
  · rw [if_neg fun hcursor => hbyte hcursor.1, h.cover_eq_zero fun hcovers => hbyte hcovers.2.1,
      ite_self]

end Markdown

end Iv

end MessengerClient
