import MessengerClient.Markdown.DisplayMath
import Mathlib

/-!
# MessengerClient.Markdown.DisplayMath.Shown

Which display formulas are shown, and what else is.

Formulas are handed to the children of a container one behind the other, so what a child gets can
be said without the loop (`sliceFor`): all formulas in it, or none if one that was handed to the
container begins before the child and ends in it.  Every formula is displayed once, and in order,
but a text is cut out for it only if a paragraph was reached that it is in
(`normalizeDisplayMathBlocks_iff`).
-/

namespace MessengerClient

namespace Iv

namespace Markdown

variable {source : Bytes} {lineStarts : List Int} {fields : NodeFields}
  {node child clipped : MarkdownNode} {children nodes : List MarkdownNode}
  {byte clipStart clipEnd : Int} {formula : IndexedFormula} {formulas : List IndexedFormula}

/-! ## Formulas that are displayed -/

@[simp] theorem mathNodes_node (fields : NodeFields) (children : List MarkdownNode) :
    mathNodes (.node fields children) =
      (if fields.kind = .DisplayMath then [fields] else []) ++ children.flatMap mathNodes := by
  rw [mathNodes, RoseTree.labels_node, List.filter_cons, List.filter_flatMap]
  split
  · next h => rw [if_pos (of_decide_eq_true h)]; rfl
  · next h => rw [if_neg (by simpa using h)]; rfl

/-- The fields of a formula that is displayed. -/
def mathFields (formula : IndexedFormula) : NodeFields :=
  (displayMathNode formula.1 formula.2).label

@[simp] theorem mathNodes_displayMathNode (formula : IndexedFormula) :
    mathNodes (displayMathNode formula.1 formula.2) = [mathFields formula] := by
  rw [displayMathNode, mathNodes_node]
  rfl

theorem flatMap_displayMathNode (formulas : List IndexedFormula) :
    (formulas.map fun formula => displayMathNode formula.1 formula.2).flatMap mathNodes =
      formulas.map mathFields := by
  rw [List.flatMap_map, List.map_eq_flatMap]
  exact List.flatMap_congr fun formula _ => mathNodes_displayMathNode formula

theorem mathNodes_eq_nil : mathNodes node = [] ↔
    ∀ below ∈ node.preorder, below.label.kind ≠ .DisplayMath := by
  rw [mathNodes, List.filter_eq_nil_iff, RoseTree.labels, List.forall_mem_map]
  simp

theorem WellPlaced.mathNodes (h : WellPlaced source node) : mathNodes node = [] :=
  mathNodes_eq_nil.mpr fun below hbelow => (h below hbelow).math

theorem mem_of_mem_trimBreakEdges (h : node ∈ trimBreakEdges nodes) : node ∈ nodes :=
  (List.dropWhile_sublist _).mem ((List.rdropWhile_prefix _ _).sublist.mem h)

/-- **Clipping displays nothing.** -/
theorem mathNodes_clip (source : Bytes) (lineStarts : List Int) (clipStart clipEnd : Int) :
    (∀ node clipped, mathNodes node = [] →
      clipNodeToOffsets source lineStarts clipStart clipEnd node = some clipped →
        mathNodes clipped = []) ∧
    ∀ (nodes : List MarkdownNode) started, (∀ node ∈ nodes, mathNodes node = []) →
      ∀ clipped ∈ clipChildren source lineStarts clipStart clipEnd started nodes,
        mathNodes clipped = [] := by
  refine RoseTree.both (fun fields children ih clipped h hclip => ?_)
    (fun started _ clipped hclipped => ?_) fun node nodes hnode hnodes started h => ?_
  · have hkind := (clipNodeToOffsets_kind hclip).1
    rw [mathNodes_node, List.append_eq_nil_iff, List.flatMap_eq_nil_iff] at h
    obtain ⟨fields', children'⟩ := clipped
    rw [mathNodes_node, List.append_eq_nil_iff, List.flatMap_eq_nil_iff]
    refine ⟨?_, ?_⟩
    · have hmath : fields.kind ≠ .DisplayMath := by
        intro heq
        rw [if_pos heq] at h
        cases h.1
      simp only [RoseTree.label_node] at hkind
      rw [if_neg (hkind ▸ hmath)]
    · rw [clipNodeToOffsets] at hclip
      split at hclip
      · cases hclip
      · split at hclip
        · cases hclip
        · split at hclip
          · obtain ⟨fields'', -, heq⟩ := Option.map_eq_some_iff.mp hclip
            cases heq
            simp
          · simp only at hclip
            split at hclip
            · cases hclip
            · cases hclip
              exact fun child hchild => ih false h.2 child (mem_of_mem_trimBreakEdges hchild)
  · rw [clipChildren] at hclipped
    cases hclipped
  · obtain ⟨hfirst, hrest⟩ := List.forall_mem_cons.mp h
    rw [clipChildren]
    split
    · split
      · exact List.forall_mem_cons.mpr ⟨hfirst, hnodes true hrest⟩
      · exact hnodes false hrest
    · split
      · exact hnodes started hrest
      · next clipped hclip =>
        exact List.forall_mem_cons.mpr ⟨hnode clipped hfirst hclip, hnodes true hrest⟩

theorem mathNodes_paragraphSegment (h : mathNodes node = []) (clipStart clipEnd : Int) :
    (paragraphSegment source lineStarts node clipStart clipEnd).toList.flatMap mathNodes = [] := by
  rw [paragraphSegment]
  split
  · rfl
  · cases hclip : clipNodeToOffsets source lineStarts clipStart clipEnd node with
    | none => rfl
    | some clipped =>
      rw [Option.toList_some, List.flatMap_cons, List.flatMap_nil, List.append_nil]
      exact (mathNodes_clip source lineStarts clipStart clipEnd).1 node clipped h hclip

/-- **A paragraph that is split** displays its formulas. -/
theorem mathNodes_splitLoop (h : mathNodes node = [])
    (hinside : ∀ formula ∈ formulas, rangeContains node.label.range formula.1.range)
    (cursor : Int) :
    (splitLoop source lineStarts node cursor formulas).flatMap mathNodes =
      formulas.map mathFields := by
  induction formulas generalizing cursor with
  | nil =>
    rw [splitLoop]
    exact mathNodes_paragraphSegment h _ _
  | cons first formulas ih =>
    obtain ⟨formula, index⟩ := first
    obtain ⟨hfirst, hrest⟩ := List.forall_mem_cons.mp hinside
    rw [splitLoop, if_neg (by simp [hfirst]), List.flatMap_append, List.flatMap_cons, ih hrest,
      mathNodes_paragraphSegment h]
    rfl

theorem mathNodes_splitParagraphAroundDisplayMath (h : WellPlaced source node)
    (hinside : ∀ formula ∈ formulas, rangeContains node.label.range formula.1.range) :
    (splitParagraphAroundDisplayMath source lineStarts node formulas).flatMap mathNodes =
      formulas.map mathFields := by
  rw [splitParagraphAroundDisplayMath, if_neg (by simp [h.placed.available])]
  exact mathNodes_splitLoop h.mathNodes hinside _

/-- A formula in a table cell. -/
def InTableCell (node : MarkdownNode) (formula : IndexedFormula) : Prop :=
  ∃ cell ∈ node.preorder, cell.label.kind = .TableCell ∧
    rangeContains cell.label.range formula.1.range

theorem InTableCell.of_child (hchild : child ∈ node.children) (h : InTableCell child formula) :
    InTableCell node formula := by
  obtain ⟨cell, hcell, hkind⟩ := h
  obtain ⟨fields, children⟩ := node
  refine ⟨cell, ?_, hkind⟩
  rw [RoseTree.preorder_node]
  exact List.mem_cons_of_mem _ (List.mem_flatMap.mpr ⟨child, hchild, hcell⟩)

theorem inTableCell_self (hkind : node.label.kind = .TableCell)
    (hcontains : rangeContains node.label.range formula.1.range) : InTableCell node formula := by
  refine ⟨node, ?_, hkind, hcontains⟩
  obtain ⟨fields, children⟩ := node
  rw [RoseTree.preorder_node]
  exact List.mem_cons_self

/-- Formulas of which some are displayed, and the others are in table cells. -/
def Displays (displayed : List NodeFields) (InCell : IndexedFormula → Prop)
    (formulas : List IndexedFormula) : Prop :=
  ∃ kept : List IndexedFormula, kept.Sublist formulas ∧ displayed = kept.map mathFields ∧
    ∀ formula ∈ formulas, formula ∉ kept → InCell formula

theorem displays_all (InCell : IndexedFormula → Prop) (formulas : List IndexedFormula) :
    Displays (formulas.map mathFields) InCell formulas :=
  ⟨formulas, List.Sublist.refl _, rfl, fun _ hmem hnot => absurd hmem hnot⟩

theorem displays_none {InCell : IndexedFormula → Prop}
    (h : ∀ formula ∈ formulas, InCell formula) : Displays [] InCell formulas :=
  ⟨[], List.nil_sublist _, rfl, fun formula hformula _ => h formula hformula⟩

theorem Displays.append {front back : List NodeFields} {InCell : IndexedFormula → Prop}
    {formulas' : List IndexedFormula} (h : Displays front InCell formulas)
    (h' : Displays back InCell formulas') :
    Displays (front ++ back) InCell (formulas ++ formulas') := by
  obtain ⟨kept, hsub, rfl, hcell⟩ := h
  obtain ⟨kept', hsub', rfl, hcell'⟩ := h'
  refine ⟨kept ++ kept', hsub.append hsub', (List.map_append ..).symm, fun formula hmem hnot => ?_⟩
  rw [List.mem_append, not_or] at hnot
  exact (List.mem_append.mp hmem).elim (fun hmem => hcell formula hmem hnot.1)
    fun hmem => hcell' formula hmem hnot.2

theorem Displays.mono {displayed : List NodeFields} {InCell InCell' : IndexedFormula → Prop}
    (h : Displays displayed InCell formulas) (hmono : ∀ formula, InCell formula → InCell' formula) :
    Displays displayed InCell' formulas := by
  obtain ⟨kept, hsub, heq, hcell⟩ := h
  exact ⟨kept, hsub, heq, fun formula hmem hnot => hmono _ (hcell formula hmem hnot)⟩

/-- The formulas that the loop hands to a child. -/
def insideOf (child : MarkdownNode) (formulas : List IndexedFormula) : List IndexedFormula :=
  (formulas.dropWhile (endsBefore child)).takeWhile fun formula =>
    rangeContains child.label.range formula.1.range

/-- The formulas that are left then. -/
def restOf (child : MarkdownNode) (formulas : List IndexedFormula) : List IndexedFormula :=
  (formulas.dropWhile (endsBefore child)).dropWhile fun formula =>
    rangeContains child.label.range formula.1.range

theorem formulas_eq (child : MarkdownNode) (formulas : List IndexedFormula) :
    formulas = formulas.takeWhile (endsBefore child) ++ (insideOf child formulas
      ++ restOf child formulas) := by
  rw [insideOf, restOf, List.takeWhile_append_dropWhile, List.takeWhile_append_dropWhile]

theorem rangeContains_of_mem_insideOf (h : formula ∈ insideOf child formulas) :
    rangeContains child.label.range formula.1.range :=
  @List.mem_takeWhile_imp _ (fun formula : IndexedFormula =>
    rangeContains child.label.range formula.1.range) _ _ h

/-- The loop, with what it hands to the first child. -/
theorem normalizeLoop_cons (source : Bytes) (lineStarts : List Int) (child : MarkdownNode)
    (children : List MarkdownNode) (formulas : List IndexedFormula) :
    normalizeLoop source lineStarts (child :: children) formulas =
      ((formulas.takeWhile (endsBefore child)).map fun formula =>
          displayMathNode formula.1 formula.2) ++
        if !(insideOf child formulas).isEmpty && child.label.kind = .Paragraph then
          splitParagraphAroundDisplayMath source lineStarts child (insideOf child formulas)
            ++ normalizeLoop source lineStarts children (restOf child formulas)
        else if !(insideOf child formulas).isEmpty && child.label.kind = .TableCell then
          child :: normalizeLoop source lineStarts children (restOf child formulas)
        else if !(insideOf child formulas).isEmpty
            && canNormalizeDisplayMathChildren child.label.kind then
          normalizeDisplayMathChildren source lineStarts child (insideOf child formulas)
            :: normalizeLoop source lineStarts children (restOf child formulas)
        else
          child :: normalizeLoop source lineStarts children
            (insideOf child formulas ++ restOf child formulas) := by
  have hall : insideOf child formulas ++ restOf child formulas =
      formulas.dropWhile (endsBefore child) := List.takeWhile_append_dropWhile
  rw [hall, normalizeLoop]
  rfl

/-- **Every formula is displayed once**, but for some of those in table cells. -/
theorem displays_normalize (source : Bytes) (lineStarts : List Int) :
    (∀ node, WellPlaced source node → node.children ≠ [] → ∀ formulas,
      Displays (mathNodes (normalizeDisplayMathChildren source lineStarts node formulas))
        (InTableCell node) formulas) ∧
    ∀ nodes : List MarkdownNode, (∀ node ∈ nodes, WellPlaced source node) → ∀ formulas,
      Displays ((normalizeLoop source lineStarts nodes formulas).flatMap mathNodes)
        (fun formula => ∃ node ∈ nodes, InTableCell node formula) formulas := by
  refine RoseTree.both (fun fields children ih h hne formulas => ?_) (fun _ formulas => ?_)
    fun child children hchild hchildren h formulas => ?_
  · have hmath : fields.kind ≠ .DisplayMath := h.placed.math
    rw [normalizeDisplayMathChildren]
    split
    · next hnil =>
      rw [Bool.or_eq_true, List.isEmpty_iff, List.isEmpty_iff] at hnil
      obtain rfl := hnil.resolve_right hne
      rw [h.mathNodes]
      exact displays_none (by simp)
    · rw [mathNodes_node, if_neg hmath, List.nil_append]
      refine (ih (wellPlaced_node.mp h).2 formulas).mono ?_
      rintro formula ⟨child, hchild, hcell⟩
      exact hcell.of_child hchild
  · rw [normalizeLoop, flatMap_displayMathNode]
    exact displays_all _ _
  · obtain ⟨hfirst, hrest⟩ := List.forall_mem_cons.mp h
    have hbefore := displays_all (fun formula => ∃ node ∈ child :: children,
      InTableCell node formula) (formulas.takeWhile (endsBefore child))
    have hbehind : ∀ formulas, Displays
        ((normalizeLoop source lineStarts children formulas).flatMap mathNodes)
        (fun formula => ∃ node ∈ child :: children, InTableCell node formula) formulas := by
      intro formulas
      refine (hchildren hrest formulas).mono fun formula hcell => ?_
      obtain ⟨node, hnode, hcell⟩ := hcell
      exact ⟨node, List.mem_cons_of_mem _ hnode, hcell⟩
    rw [normalizeLoop_cons, List.flatMap_append, flatMap_displayMathNode]
    conv_rhs => rw [formulas_eq child formulas]
    refine hbefore.append ?_
    split
    · rw [List.flatMap_append, mathNodes_splitParagraphAroundDisplayMath hfirst
        fun formula => rangeContains_of_mem_insideOf]
      exact (displays_all _ _).append (hbehind _)
    · split
      · next hcell =>
        rw [Bool.and_eq_true, decide_eq_true_eq] at hcell
        rw [List.flatMap_cons, hfirst.mathNodes]
        refine (displays_none fun formula hformula => ?_).append (hbehind _)
        exact ⟨child, List.mem_cons_self,
          inTableCell_self hcell.2 (rangeContains_of_mem_insideOf hformula)⟩
      · split
        · next hcontainer =>
          rw [Bool.and_eq_true] at hcontainer
          rw [List.flatMap_cons]
          exact ((hchild hfirst (hfirst.placed.containers hcontainer.2) _).mono
            fun formula hcell => ⟨child, List.mem_cons_self, hcell⟩).append (hbehind _)
        · rw [List.flatMap_cons, hfirst.mathNodes, List.nil_append]
          exact hbehind _

/-- The children of a node do not all go away. -/
theorem normalizeLoop_ne_nil (h : ∀ child ∈ children, WellPlaced source child) (hne : children ≠ [])
    (formulas : List IndexedFormula) :
    normalizeLoop source lineStarts children formulas ≠ [] := by
  cases children with
  | nil => exact absurd rfl hne
  | cons child children =>
    rw [normalizeLoop_cons]
    refine List.append_ne_nil_of_right_ne_nil _ ?_
    split
    · next hparagraph =>
      rw [Bool.and_eq_true, Bool.not_eq_true'] at hparagraph
      refine List.append_ne_nil_of_left_ne_nil (fun hnil => ?_) _
      have hmath := @mathNodes_splitParagraphAroundDisplayMath source lineStarts child
        (insideOf child formulas) (h child List.mem_cons_self)
        fun formula => rangeContains_of_mem_insideOf
      rw [hnil, List.flatMap_nil, eq_comm, List.map_eq_nil_iff] at hmath
      rw [hmath] at hparagraph
      cases hparagraph.1
    · split
      · exact List.cons_ne_nil _ _
      · split <;> exact List.cons_ne_nil _ _

/-! ## What a child is handed -/

/-- A formula that begins before a node and ends in it. -/
def Straddles (node : MarkdownNode) (formula : IndexedFormula) : Prop :=
  formula.1.range.startOffset < node.label.range.startOffset ∧
    node.label.range.startOffset < formula.1.range.endOffset

instance (node : MarkdownNode) (formula : IndexedFormula) : Decidable (Straddles node formula) :=
  inferInstanceAs (Decidable (_ ∧ _))

/-- What a child is handed of the formulas of its parent. -/
def sliceFor (child : MarkdownNode) (formulas : List IndexedFormula) : List IndexedFormula :=
  if ∃ formula ∈ formulas, Straddles child formula then []
  else formulas.filter fun formula => rangeContains child.label.range formula.1.range

theorem rangeContains_iff {outer inner : SourceRange} (houter : outer.available)
    (hinner : inner.available) : rangeContains outer inner ↔
      outer.startOffset ≤ inner.startOffset ∧ inner.endOffset ≤ outer.endOffset := by
  simp [rangeContains, houter, hinner]

/-- Formulas that end before a child do not matter to it. -/
theorem sliceFor_append {front back : List IndexedFormula} (h : InOrder front)
    (hchild : child.label.range.available)
    (hfront : ∀ formula ∈ front, formula.1.range.endOffset ≤ child.label.range.startOffset) :
    sliceFor child (front ++ back) = sliceFor child back := by
  have hstraddles : (∃ formula ∈ front ++ back, Straddles child formula) ↔
      ∃ formula ∈ back, Straddles child formula := by
    constructor
    · rintro ⟨formula, hformula, hstraddles⟩
      obtain hmem | hmem := List.mem_append.mp hformula
      · exact absurd hstraddles.2 (not_lt.mpr (hfront formula hmem))
      · exact ⟨formula, hmem, hstraddles⟩
    · rintro ⟨formula, hformula, hstraddles⟩
      exact ⟨formula, List.mem_append_right _ hformula, hstraddles⟩
  have hfilter : (front.filter fun formula =>
      rangeContains child.label.range formula.1.range) = [] := by
    refine List.filter_eq_nil_iff.mpr fun formula hformula hcontains => ?_
    have hpositive := h.positive formula hformula
    have hend := hfront formula hformula
    have hstart := ((rangeContains_iff hchild (h.available formula hformula)).mp hcontains).1
    omega
  rw [sliceFor, sliceFor, List.filter_append, hfilter, List.nil_append]
  exact if_congr hstraddles rfl rfl

theorem takeWhile_eq_filter {α : Type} {p : α → Bool} {l : List α}
    (h : l.Pairwise fun a b => p b → p a) : l.takeWhile p = l.filter p := by
  induction l with
  | nil => rfl
  | cons a l ih =>
    obtain ⟨hfirst, hrest⟩ := List.pairwise_cons.mp h
    rw [List.takeWhile_cons, List.filter_cons]
    split
    · rw [ih hrest]
    · next hnot =>
      symm
      exact List.filter_eq_nil_iff.mpr fun b hb hpb => hnot (hfirst b hb hpb)

/-- **What the loop hands to a child.** -/
theorem insideOf_eq_sliceFor (h : InOrder formulas) (hchild : child.label.range.available) :
    insideOf child formulas = sliceFor child formulas := by
  have hsplit := @List.takeWhile_append_dropWhile _ (endsBefore child) formulas
  have hbefore : ∀ formula ∈ formulas.takeWhile (endsBefore child),
      formula.1.range.endOffset ≤ child.label.range.startOffset := by
    intro formula hformula
    have hends := List.mem_takeWhile_imp hformula
    have havailable := h.available formula ((List.takeWhile_sublist _).mem hformula)
    rw [endsBefore, Bool.and_eq_true, decide_eq_true_eq, rangeEndOffset, if_pos havailable] at hends
    exact hends.2
  conv_rhs => rw [← hsplit]
  rw [sliceFor_append (h.sublist (List.takeWhile_sublist _)) hchild hbefore, insideOf]
  have hleft := h.sublist (List.dropWhile_sublist (endsBefore child))
  have hhead := @List.head?_dropWhile_not _ (endsBefore child) formulas
  cases hdrop : formulas.dropWhile (endsBefore child) with
  | nil => rfl
  | cons first rest =>
    rw [hdrop] at hleft hhead
    have hfirst := hleft.available first List.mem_cons_self
    have hends : child.label.range.startOffset < first.1.range.endOffset := by
      simp only [List.head?_cons, endsBefore, hchild, rangeEndOffset, hfirst, if_true,
        Bool.true_and, decide_eq_false_iff_not, not_le] at hhead
      exact hhead
    obtain ⟨hlater, -⟩ := List.pairwise_cons.mp hleft.sorted
    rw [sliceFor]
    by_cases hstart : first.1.range.startOffset < child.label.range.startOffset
    · rw [if_pos ⟨first, List.mem_cons_self, hstart, hends⟩, List.takeWhile_cons_of_neg]
      rw [rangeContains_iff hchild hfirst]
      omega
    · have hstarts : ∀ formula ∈ first :: rest,
          child.label.range.startOffset ≤ formula.1.range.startOffset := by
        refine List.forall_mem_cons.mpr ⟨not_lt.mp hstart, fun formula hformula => ?_⟩
        have hnext := hlater formula hformula
        omega
      rw [if_neg]
      · refine takeWhile_eq_filter (hleft.sorted.imp_of_mem fun {a b} ha hb hab hcontains => ?_)
        have hpositive := hleft.positive b hb
        rw [rangeContains_iff hchild (hleft.available b hb)] at hcontains
        rw [rangeContains_iff hchild (hleft.available a ha)]
        exact ⟨hstarts a ha, by omega⟩
      · rintro ⟨formula, hformula, hstraddles⟩
        exact not_lt.mpr (hstarts formula hformula) hstraddles.1

/-- What a child shows when it was handed formulas. -/
def coverHanded (source : Bytes) (child : MarkdownNode) (formulas : List IndexedFormula)
    (byte : Int) : Nat :=
  if formulas = [] then cover child byte
  else if child.label.kind = .Paragraph then
    if ∀ formula ∈ formulas, ¬formula.1.range.Covers byte then cover child byte else 0
  else if canNormalizeDisplayMathChildren child.label.kind then
    cover (normalizeDisplayMathChildren source (buildLineStarts source) child formulas) byte
  else cover child byte

/-- Formulas that were before a child, or in it, do not matter to those behind it. -/
theorem sliceFor_restOf (h : InOrder formulas) {next : MarkdownNode}
    (hchild : WellPlaced source child) (hnext : next.label.range.available)
    (hbehind : child.label.range.endOffset ≤ next.label.range.startOffset) :
    sliceFor next (restOf child formulas) = sliceFor next formulas ∧
      sliceFor next (insideOf child formulas ++ restOf child formulas) =
        sliceFor next formulas := by
  have hsplit := formulas_eq child formulas
  have hfront : (formulas.takeWhile (endsBefore child)).Sublist formulas :=
    List.takeWhile_sublist _
  have hinside : (insideOf child formulas).Sublist formulas :=
    (List.takeWhile_sublist _).trans (List.dropWhile_sublist _)
  have hbefore : ∀ formula ∈ formulas.takeWhile (endsBefore child),
      formula.1.range.endOffset ≤ next.label.range.startOffset := by
    intro formula hformula
    have hends := List.mem_takeWhile_imp hformula
    have havailable := h.available formula (hfront.mem hformula)
    have hordered := hchild.placed.ordered
    rw [endsBefore, Bool.and_eq_true, decide_eq_true_eq, rangeEndOffset, if_pos havailable] at hends
    omega
  have hin : ∀ formula ∈ insideOf child formulas,
      formula.1.range.endOffset ≤ next.label.range.startOffset := by
    intro formula hformula
    have hcontains := rangeContains_of_mem_insideOf hformula
    rw [rangeContains_iff hchild.placed.available (h.available formula (hinside.mem hformula))]
      at hcontains
    omega
  have hleft : sliceFor next (insideOf child formulas ++ restOf child formulas) =
      sliceFor next formulas := by
    conv_rhs => rw [hsplit]
    rw [sliceFor_append (h.sublist hfront) hnext hbefore]
  refine ⟨?_, hleft⟩
  rw [← hleft, sliceFor_append (h.sublist hinside) hnext hin]

/-- **What is shown by a list of children** that formulas were handed to. -/
theorem coverAll_normalizeLoop (h : ∀ child ∈ children, WellPlaced source child)
    (hsiblings : children.Pairwise fun a b =>
      a.label.range.endOffset ≤ b.label.range.startOffset)
    (hformulas : InOrder formulas) (byte : Int) :
    coverAll (normalizeLoop source (buildLineStarts source) children formulas) byte =
      (children.map fun child => coverHanded source child (sliceFor child formulas) byte).sum := by
  induction children generalizing formulas with
  | nil =>
    rw [normalizeLoop, coverAll_displayMathNodes]
    rfl
  | cons child children ih =>
    obtain ⟨hchild, hchildren⟩ := List.forall_mem_cons.mp h
    obtain ⟨hbehind, hrest⟩ := List.pairwise_cons.mp hsiblings
    have hslice := insideOf_eq_sliceFor hformulas hchild.placed.available
    have hsub : (insideOf child formulas).Sublist formulas :=
      (List.takeWhile_sublist _).trans (List.dropWhile_sublist _)
    have hsubRest : (restOf child formulas).Sublist formulas :=
      (List.dropWhile_sublist _).trans (List.dropWhile_sublist _)
    have hsubLeft : (insideOf child formulas ++ restOf child formulas).Sublist formulas := by
      conv_rhs => rw [formulas_eq child formulas]
      exact List.sublist_append_right _ _
    have hloop : coverAll (normalizeLoop source (buildLineStarts source) children
        (restOf child formulas)) byte =
          (children.map fun child =>
            coverHanded source child (sliceFor child formulas) byte).sum := by
      rw [ih hchildren hrest (hformulas.sublist hsubRest)]
      refine congrArg List.sum (List.map_congr_left fun next hnext => ?_)
      rw [(sliceFor_restOf hformulas hchild (hchildren next hnext).placed.available
        (hbehind next hnext)).1]
    have hloop' : coverAll (normalizeLoop source (buildLineStarts source) children
        (insideOf child formulas ++ restOf child formulas)) byte =
          (children.map fun child =>
            coverHanded source child (sliceFor child formulas) byte).sum := by
      rw [ih hchildren hrest (hformulas.sublist hsubLeft)]
      refine congrArg List.sum (List.map_congr_left fun next hnext => ?_)
      rw [(sliceFor_restOf hformulas hchild (hchildren next hnext).placed.available
        (hbehind next hnext)).2]
    rw [normalizeLoop_cons, coverAll_append, coverAll_displayMathNodes, Nat.zero_add, List.map_cons,
      List.sum_cons, coverHanded, ← hslice]
    by_cases hnil : insideOf child formulas = []
    · simp only [hnil, List.isEmpty_nil, Bool.not_true, Bool.false_and, Bool.false_eq_true,
        if_false, if_true]
      rw [coverAll_cons, ← hnil, hloop']
    · have hsome : (insideOf child formulas).isEmpty = false := by simpa using hnil
      simp only [hsome, Bool.not_false, Bool.true_and, decide_eq_true_eq, if_neg hnil]
      by_cases hparagraph : child.label.kind = .Paragraph
      · rw [if_pos hparagraph, if_pos hparagraph, coverAll_append, hloop,
          coverAll_splitParagraphAroundDisplayMath hchild (hformulas.sublist hsub)
            fun formula => rangeContains_of_mem_insideOf]
      · rw [if_neg hparagraph, if_neg hparagraph]
        by_cases hcell : child.label.kind = .TableCell
        · have hcontainer : canNormalizeDisplayMathChildren child.label.kind = false := by
            rw [hcell]
            rfl
          rw [if_pos hcell, if_neg (by simp [hcontainer]), coverAll_cons, hloop]
        · rw [if_neg hcell]
          by_cases hcontainer : canNormalizeDisplayMathChildren child.label.kind
          · rw [if_pos hcontainer, if_pos hcontainer, coverAll_cons, hloop]
          · rw [if_neg hcontainer, if_neg hcontainer, coverAll_cons, hloop']

/-! ## Formulas that are cut out -/

/-- A child that contains a formula, and is begun by no other one of a list. -/
def Handed (all : List IndexedFormula) (formula : IndexedFormula) (child : MarkdownNode) : Prop :=
  rangeContains child.label.range formula.1.range ∧ ∀ other ∈ all, ¬Straddles child other

/-- **A formula gets to a paragraph** below a node: each node on the way is a container, contains
the formula, and no other formula begins before it and ends in it. -/
inductive Reached (all : List IndexedFormula) (formula : IndexedFormula) : MarkdownNode → Prop
  | paragraph {node child : MarkdownNode} (hmem : child ∈ node.children)
      (hhanded : Handed all formula child) (hkind : child.label.kind = .Paragraph) :
      Reached all formula node
  | container {node child : MarkdownNode} (hmem : child ∈ node.children)
      (hhanded : Handed all formula child)
      (hkind : canNormalizeDisplayMathChildren child.label.kind)
      (hreached : Reached all formula child) : Reached all formula node

variable {all : List IndexedFormula}

/-- A child at which a formula is cut out, or below which it is. -/
def ReachedAt (all : List IndexedFormula) (formula : IndexedFormula) (child : MarkdownNode) :
    Prop :=
  Handed all formula child ∧ (child.label.kind = .Paragraph ∨
    canNormalizeDisplayMathChildren child.label.kind ∧ Reached all formula child)

theorem reached_iff : Reached all formula node ↔ ∃ child ∈ node.children,
    ReachedAt all formula child := by
  constructor
  · intro h
    cases h with
    | paragraph hmem hhanded hkind => exact ⟨_, hmem, hhanded, .inl hkind⟩
    | container hmem hhanded hkind hreached => exact ⟨_, hmem, hhanded, .inr ⟨hkind, hreached⟩⟩
  · rintro ⟨child, hmem, hhanded, hkind | ⟨hkind, hreached⟩⟩
    · exact .paragraph hmem hhanded hkind
    · exact .container hmem hhanded hkind hreached

/-- The formulas that a node was handed of all of them: those in its children, and those that may
keep others from them. -/
structure Slice (all : List IndexedFormula) (node : MarkdownNode)
    (formulas : List IndexedFormula) : Prop where
  sublist : formulas.Sublist all
  contained : ∀ child ∈ node.children, ∀ formula ∈ all,
    rangeContains child.label.range formula.1.range → formula ∈ formulas
  straddling : ∀ child ∈ node.children, ∀ formula ∈ all,
    rangeContains child.label.range formula.1.range →
      ∀ other ∈ all, Straddles child other → other ∈ formulas

theorem slice_refl (all : List IndexedFormula) (node : MarkdownNode) : Slice all node all :=
  ⟨List.Sublist.refl _, fun _ _ _ hmem _ => hmem, fun _ _ _ _ _ _ hmem _ => hmem⟩

theorem mem_sliceFor : formula ∈ sliceFor child formulas ↔
    (∀ other ∈ formulas, ¬Straddles child other) ∧ formula ∈ formulas ∧
      rangeContains child.label.range formula.1.range := by
  rw [sliceFor]
  split
  · next hstraddled =>
    refine ⟨fun hmem => absurd hmem List.not_mem_nil, fun h => ?_⟩
    obtain ⟨other, hother, hstraddles⟩ := hstraddled
    exact absurd hstraddles (h.1 other hother)
  · next hnone =>
    rw [List.mem_filter]
    refine ⟨fun h => ⟨fun other hother hstraddles => hnone ⟨other, hother, hstraddles⟩, h⟩,
      fun h => h.2⟩

/-- **A child is handed the formulas in it**, if none begins before it and ends in it. -/
theorem Slice.mem_iff (h : Slice all node formulas) (hchild : child ∈ node.children)
    (hformula : formula ∈ all) :
    formula ∈ sliceFor child formulas ↔ Handed all formula child := by
  rw [mem_sliceFor]
  constructor
  · rintro ⟨hnone, hmem, hcontains⟩
    exact ⟨hcontains, fun other hother hstraddles =>
      hnone other (h.straddling child hchild formula hformula hcontains other hother hstraddles)
        hstraddles⟩
  · rintro ⟨hcontains, hnone⟩
    exact ⟨fun other hother => hnone other (h.sublist.mem hother),
      h.contained child hchild formula hformula hcontains, hcontains⟩

theorem InOrder.apart (h : InOrder all) {a b : IndexedFormula} (ha : a ∈ all) (hb : b ∈ all)
    (hne : a ≠ b) :
    a.1.range.endOffset ≤ b.1.range.startOffset ∨ b.1.range.endOffset ≤ a.1.range.startOffset := by
  obtain ⟨i, hi, rfl⟩ := List.mem_iff_getElem.mp ha
  obtain ⟨j, hj, rfl⟩ := List.mem_iff_getElem.mp hb
  obtain hlt | rfl | hlt := lt_trichotomy i j
  · exact .inl (List.pairwise_iff_getElem.mp h.sorted i j hi hj hlt)
  · exact absurd rfl hne
  · exact .inr (List.pairwise_iff_getElem.mp h.sorted j i hj hi hlt)

/-- What a child is handed is what it is to be handed of all formulas. -/
theorem Slice.of_child (hall : InOrder all) (h : Slice all node formulas)
    (hnode : WellPlaced source node) (hchild : child ∈ node.children)
    (hnone : ∀ other ∈ formulas, ¬Straddles child other) :
    Slice all child (sliceFor child formulas) := by
  have hplaced := hnode.of_child hchild
  have hcontained : ∀ below ∈ child.children, ∀ formula ∈ all,
      rangeContains below.label.range formula.1.range →
        rangeContains child.label.range formula.1.range ∧
          below.label.range.startOffset ≤ formula.1.range.startOffset ∧
            formula.1.range.endOffset ≤ child.label.range.endOffset := by
    intro below hbelow formula hformula hcontains
    have havailable := hall.available formula hformula
    have hin := hplaced.placed.children below hbelow
    rw [rangeContains_iff (hplaced.of_child hbelow).placed.available havailable] at hcontains
    rw [rangeContains_iff hplaced.placed.available havailable]
    omega
  refine ⟨?_, fun below hbelow formula hformula hcontains => ?_,
    fun below hbelow formula hformula hcontains other hother hstraddles => ?_⟩
  · rw [sliceFor]
    split
    · exact List.nil_sublist _
    · exact List.filter_sublist.trans h.sublist
  · have hin := (hcontained below hbelow formula hformula hcontains).1
    exact mem_sliceFor.mpr ⟨hnone, h.contained child hchild formula hformula hin, hin⟩
  · obtain ⟨hin, hstart, hend⟩ := hcontained below hbelow formula hformula hcontains
    have hinside := hplaced.placed.children below hbelow
    -- it ends before the formula does, as they are apart
    have hbefore : other.1.range.endOffset ≤ formula.1.range.startOffset := by
      have hne : other ≠ formula := by
        rintro rfl
        exact not_lt.mpr hstart hstraddles.1
      have hpositive := hall.positive formula hformula
      obtain hapart | hapart := hall.apart hother hformula hne
      · exact hapart
      · have hbegins := hstraddles.1
        omega
    have hpositive := hall.positive formula hformula
    have hother' : ¬other.1.range.startOffset < child.label.range.startOffset := by
      intro hbegins
      have hends := hstraddles.2
      have hstraddles' : Straddles child other := ⟨hbegins, by omega⟩
      exact hnone other (h.straddling child hchild formula hformula hin other hother hstraddles')
        hstraddles'
    have hcontains' : rangeContains child.label.range other.1.range :=
      (rangeContains_iff hplaced.placed.available (hall.available other hother)).mpr
        ⟨not_lt.mp hother', by omega⟩
    exact mem_sliceFor.mpr
      ⟨hnone, h.contained child hchild other hother hcontains', hcontains'⟩

/-- A formula that is reached below a child is handed to it. -/
theorem Slice.handed (hall : InOrder all) (h : Slice all node formulas)
    (hnode : WellPlaced source node) (hchild : child ∈ node.children) (hformula : formula ∈ all)
    (hnone : ∀ other ∈ formulas, ¬Straddles child other) (hreached : Reached all formula child) :
    Handed all formula child := by
  obtain ⟨below, hbelow, ⟨hcontains, -⟩, -⟩ := reached_iff.mp hreached
  have hslice := h.of_child hall hnode hchild hnone
  exact (h.mem_iff hchild hformula).mp (hslice.contained below hbelow formula hformula hcontains)

/-- A byte that is cut out of a node. -/
def CutOut (all : List IndexedFormula) (byte : Int) (Within : IndexedFormula → Prop) : Prop :=
  ∃ formula ∈ all, formula.1.range.Covers byte ∧ Within formula

/-- What is shown is nothing where it is cut out, and what it was elsewhere. -/
def Keeps (cut : Prop) (shown before : Nat) : Prop :=
  (cut → shown = 0) ∧ (¬cut → shown = before)

/-- What a child shows that was handed formulas. -/
theorem coverHanded_keeps (hall : InOrder all) (h : Slice all node formulas)
    (hnode : WellPlaced source node) (hchild : child ∈ node.children) (byte : Int)
    (ih : canNormalizeDisplayMathChildren child.label.kind → ∀ formulas, Slice all child formulas →
      Keeps (CutOut all byte fun formula => Reached all formula child)
        (cover (normalizeDisplayMathChildren source (buildLineStarts source) child formulas) byte)
        (cover child byte)) :
    Keeps (CutOut all byte fun formula => ReachedAt all formula child)
      (coverHanded source child (sliceFor child formulas) byte) (cover child byte) := by
  rw [coverHanded]
  by_cases hnil : sliceFor child formulas = []
  · rw [if_pos hnil]
    refine ⟨?_, fun _ => rfl⟩
    rintro ⟨formula, hformula, -, hhanded, -⟩
    have hmem := (h.mem_iff hchild hformula).mpr hhanded
    rw [hnil] at hmem
    cases hmem
  · rw [if_neg hnil]
    have hnone : ∀ other ∈ formulas, ¬Straddles child other := by
      obtain ⟨formula, hmem⟩ := List.exists_mem_of_ne_nil _ hnil
      exact (mem_sliceFor.mp hmem).1
    have hslice := h.of_child hall hnode hchild hnone
    by_cases hparagraph : child.label.kind = .Paragraph
    · rw [if_pos hparagraph]
      constructor
      · rintro ⟨formula, hformula, hcovers, hhanded, -⟩
        exact if_neg fun hall => hall formula ((h.mem_iff hchild hformula).mpr hhanded) hcovers
      · intro hnot
        refine if_pos fun formula hmem hcovers => hnot ?_
        have hformula := hslice.sublist.mem hmem
        exact ⟨formula, hformula, hcovers, (h.mem_iff hchild hformula).mp hmem, .inl hparagraph⟩
    · rw [if_neg hparagraph]
      by_cases hcontainer : canNormalizeDisplayMathChildren child.label.kind
      · rw [if_pos hcontainer]
        obtain ⟨hcut, hkept⟩ := ih hcontainer _ hslice
        constructor
        · rintro ⟨formula, hformula, hcovers, -, hkind | ⟨-, hreached⟩⟩
          · exact absurd hkind hparagraph
          · exact hcut ⟨formula, hformula, hcovers, hreached⟩
        · intro hnot
          refine hkept ?_
          rintro ⟨formula, hformula, hcovers, hreached⟩
          exact hnot ⟨formula, hformula, hcovers,
            h.handed hall hnode hchild hformula hnone hreached, .inr ⟨hcontainer, hreached⟩⟩
      · rw [if_neg hcontainer]
        refine ⟨?_, fun _ => rfl⟩
        rintro ⟨formula, -, -, -, hkind | ⟨hkind, -⟩⟩
        · exact absurd hkind hparagraph
        · exact absurd hkind hcontainer

theorem coverAll_eq_sum (nodes : List MarkdownNode) (byte : Int) :
    coverAll nodes byte = (nodes.map fun node => cover node byte).sum := by
  induction nodes with
  | nil => rfl
  | cons node nodes ih => rw [coverAll_cons, ih, List.map_cons, List.sum_cons]

/-- A byte is in one child at most. -/
theorem eq_of_covers_children (h : Placed source node) {a b : MarkdownNode}
    (ha : a ∈ node.children) (hb : b ∈ node.children) (hcovers : a.label.range.Covers byte)
    (hcovers' : b.label.range.Covers byte) : a = b := by
  by_contra hne
  obtain ⟨i, hi, rfl⟩ := List.mem_iff_getElem.mp ha
  obtain ⟨j, hj, rfl⟩ := List.mem_iff_getElem.mp hb
  obtain ⟨-, hfirst, hlast⟩ := hcovers
  obtain ⟨-, hfirst', hlast'⟩ := hcovers'
  obtain hlt | rfl | hlt := lt_trichotomy i j
  · have hapart := List.pairwise_iff_getElem.mp h.siblings i j hi hj hlt
    omega
  · exact hne rfl
  · have hapart := List.pairwise_iff_getElem.mp h.siblings j i hj hi hlt
    omega

/-- **What is shown of a byte**: nothing if a formula is cut out that it is in, and otherwise what
was shown of it. -/
theorem cover_normalize (hall : InOrder all) (byte : Int) (node : MarkdownNode)
    (hnode : WellPlaced source node) (hkind : canNormalizeDisplayMathChildren node.label.kind)
    (formulas : List IndexedFormula) (h : Slice all node formulas) :
    Keeps (CutOut all byte fun formula => Reached all formula node)
      (cover (normalizeDisplayMathChildren source (buildLineStarts source) node formulas) byte)
      (cover node byte) := by
  induction node using RoseTree.induction generalizing formulas with
  | hnode fields children ih =>
    obtain ⟨hplaced, hchildren⟩ := wellPlaced_node.mp hnode
    have hne : children ≠ [] := hplaced.containers hkind
    have hcell : fields.kind ≠ .TableCell := by
      intro heq
      rw [RoseTree.label_node, heq] at hkind
      cases hkind
    have hkeeps : ∀ child ∈ children,
        Keeps (CutOut all byte fun formula => ReachedAt all formula child)
          (coverHanded source child (sliceFor child formulas) byte) (cover child byte) :=
      fun child hchild => coverHanded_keeps hall h hnode hchild byte
        (ih child hchild (hchildren child hchild))
    have hshown : cover (normalizeDisplayMathChildren source (buildLineStarts source)
        (.node fields children) formulas) byte = (children.map fun child =>
          coverHanded source child (sliceFor child formulas) byte).sum := by
      rw [normalizeDisplayMathChildren]
      split
      · next hnil =>
        rw [Bool.or_eq_true, List.isEmpty_iff, List.isEmpty_iff] at hnil
        obtain rfl := hnil.resolve_right hne
        rw [cover_node hcell hne, coverAll_eq_sum]
        refine congrArg List.sum (List.map_congr_left fun child _ => ?_)
        have hslice : sliceFor child [] = [] := by simp [sliceFor]
        rw [hslice, coverHanded, if_pos rfl]
      · rw [cover_node hcell (normalizeLoop_ne_nil hchildren hne formulas),
          coverAll_normalizeLoop hchildren hplaced.siblings (hall.sublist h.sublist)]
    rw [hshown]
    constructor
    · rintro ⟨formula, hformula, hcovers, hreached⟩
      obtain ⟨cut, hcut, hat⟩ := reached_iff.mp hreached
      rw [List.sum_eq_zero_iff]
      intro shown hmem
      obtain ⟨child, hchild, rfl⟩ := List.mem_map.mp hmem
      by_cases hother : CutOut all byte fun formula => ReachedAt all formula child
      · exact (hkeeps child hchild).1 hother
      · rw [(hkeeps child hchild).2 hother]
        refine (hchildren child hchild).cover_eq_zero fun hcovers' => hother ?_
        -- the byte is in the child that the formula is cut out of
        have hcovers'' : cut.label.range.Covers byte := by
          have hcontains := hat.1.1
          rw [rangeContains_iff (hchildren cut hcut).placed.available
            (hall.available formula hformula)] at hcontains
          obtain ⟨-, hfirst, hlast⟩ := hcovers
          exact ⟨(hchildren cut hcut).placed.available, by omega, by omega⟩
        rw [eq_of_covers_children hplaced hchild hcut hcovers' hcovers'']
        exact ⟨formula, hformula, hcovers, hat⟩
    · intro hnot
      rw [cover_node hcell hne, coverAll_eq_sum]
      refine congrArg List.sum (List.map_congr_left fun child hchild =>
        (hkeeps child hchild).2 fun hcovered => hnot ?_)
      obtain ⟨formula, hformula, hcovers, hat⟩ := hcovered
      exact ⟨formula, hformula, hcovers, reached_iff.mpr ⟨child, hchild, hat⟩⟩

/-- Nodes are in the ranges of those above them. -/
theorem WellPlaced.of_below (h : WellPlaced source node) {below : MarkdownNode}
    (hbelow : below ∈ node.preorder) :
    node.label.range.startOffset ≤ below.label.range.startOffset ∧
      below.label.range.endOffset ≤ node.label.range.endOffset := by
  induction node using RoseTree.induction with
  | hnode fields children ih =>
    obtain ⟨hplaced, hchildren⟩ := wellPlaced_node.mp h
    rw [RoseTree.preorder_node, List.mem_cons, List.mem_flatMap] at hbelow
    obtain rfl | ⟨child, hchild, hbelow⟩ := hbelow
    · exact ⟨le_rfl, le_rfl⟩
    · have hinside := hplaced.children child hchild
      have hdeeper := ih child hchild (hchildren child hchild) hbelow
      exact ⟨hinside.1.trans hdeeper.1, hdeeper.2.trans hinside.2⟩

theorem InTableCell.covers (h : WellPlaced source node) (hcell : InTableCell node formula)
    (hcovers : formula.1.range.Covers byte) : node.label.range.Covers byte := by
  obtain ⟨cell, hmem, -, hcontains⟩ := hcell
  have hinside := h.of_below hmem
  rw [rangeContains_iff (h cell hmem).available hcovers.1] at hcontains
  obtain ⟨-, hfirst, hlast⟩ := hcovers
  exact ⟨h.placed.available, by omega, by omega⟩

/-- **Nothing is shown of a table cell** but its own texts. -/
theorem cover_of_inTableCell (h : WellPlaced source node) (hcell : InTableCell node formula)
    (hcovers : formula.1.range.Covers byte) : cover node byte = 0 := by
  induction node using RoseTree.induction with
  | hnode fields children ih =>
    obtain ⟨hplaced, hchildren⟩ := wellPlaced_node.mp h
    by_cases hkind : fields.kind = .TableCell
    · exact cover_tableCell hkind byte
    · obtain ⟨cell, hmem, hcellKind, hcontains⟩ := hcell
      rw [RoseTree.preorder_node, List.mem_cons, List.mem_flatMap] at hmem
      obtain rfl | ⟨child, hchild, hbelow⟩ := hmem
      · exact absurd hcellKind hkind
      · have hin : InTableCell child formula := ⟨cell, hbelow, hcellKind, hcontains⟩
        rw [cover_node hkind (List.ne_nil_of_mem hchild), coverAll_eq_sum, List.sum_eq_zero_iff]
        intro shown hshown
        obtain ⟨other, hother, rfl⟩ := List.mem_map.mp hshown
        by_cases hcovered : other.label.range.Covers byte
        · rw [eq_of_covers_children hplaced hother hchild hcovered
            (hin.covers (hchildren child hchild) hcovers)]
          exact ih child hchild (hchildren child hchild) hin
        · exact (hchildren other hother).cover_eq_zero hcovered

theorem coverAll_le_one (h : ∀ child ∈ children, WellPlaced source child)
    (hsiblings : children.Pairwise fun a b =>
      a.label.range.endOffset ≤ b.label.range.startOffset)
    (hle : ∀ child ∈ children, cover child byte ≤ 1) : coverAll children byte ≤ 1 := by
  induction children with
  | nil => exact Nat.zero_le _
  | cons child children ih =>
    obtain ⟨hchild, hchildren⟩ := List.forall_mem_cons.mp h
    obtain ⟨hbehind, hrest⟩ := List.pairwise_cons.mp hsiblings
    obtain ⟨hfirst, hles⟩ := List.forall_mem_cons.mp hle
    rw [coverAll_cons]
    by_cases hcovers : child.label.range.Covers byte
    · have hzero : coverAll children byte = 0 := by
        rw [coverAll_eq_sum, List.sum_eq_zero_iff]
        intro shown hshown
        obtain ⟨other, hother, rfl⟩ := List.mem_map.mp hshown
        refine (hchildren other hother).cover_eq_zero fun hcovers' => ?_
        have hnext := hbehind other hother
        have hlast := hcovers.2.2
        have hfirst' := hcovers'.2.1
        omega
      rwa [hzero, Nat.add_zero]
    · rw [hchild.cover_eq_zero hcovers, Nat.zero_add]
      exact ih hchildren hrest hles

/-- **A byte is shown once at most.** -/
theorem cover_le_one (h : WellPlaced source node) (byte : Int) : cover node byte ≤ 1 := by
  induction node using RoseTree.induction with
  | hnode fields children ih =>
    obtain ⟨hplaced, hchildren⟩ := wellPlaced_node.mp h
    by_cases hkind : fields.kind = .TableCell
    · rw [cover_tableCell hkind]
      exact Nat.zero_le _
    · cases children with
      | nil =>
        rw [cover_leaf]
        split <;> simp
      | cons first children =>
        rw [cover_node hkind (List.cons_ne_nil _ _)]
        exact coverAll_le_one hchildren hplaced.siblings fun child hchild =>
          ih child hchild (hchildren child hchild)

/-! ## The formulas of a document -/

/-- Formulas with ranges that are apart. -/
structure FormulasApart (formulas : List MathFormula) : Prop where
  available : ∀ formula ∈ formulas, formula.range.available
  positive : ∀ formula ∈ formulas, formula.range.startOffset < formula.range.endOffset
  apart : formulas.Pairwise fun a b =>
    a.range.endOffset ≤ b.range.startOffset ∨ b.range.endOffset ≤ a.range.startOffset

variable {mathFormulas : List MathFormula}

theorem mem_displayFormulaIndexes : formula ∈ displayFormulaIndexes mathFormulas ↔
    mathFormulas[formula.2]? = some formula.1 ∧ formula.1.kind = .Display := by
  rw [displayFormulaIndexes, List.mem_mergeSort, List.mem_filter, decide_eq_true_eq,
    List.mem_zipIdx_iff_getElem?]

/-- **Display formulas are in the order of the source.** -/
theorem inOrder_displayFormulaIndexes (h : FormulasApart mathFormulas) :
    InOrder (displayFormulaIndexes mathFormulas) := by
  have hmem : ∀ formula ∈ displayFormulaIndexes mathFormulas, formula.1 ∈ mathFormulas :=
    fun formula hformula => List.mem_of_getElem? (mem_displayFormulaIndexes.mp hformula).1
  have havailable : ∀ formula ∈ displayFormulaIndexes mathFormulas,
      formula.1.range.available := fun formula hformula => h.available _ (hmem formula hformula)
  have hsorted : (displayFormulaIndexes mathFormulas).Pairwise fun a b =>
      !indexLess b a := by
    refine List.pairwise_mergeSort (fun a b c hab hbc => ?_) (fun a b => ?_) _
    · grind [indexLess]
    · grind [indexLess]
  have hapart : (displayFormulaIndexes mathFormulas).Pairwise fun a b =>
      a.1.range.endOffset ≤ b.1.range.startOffset ∨
        b.1.range.endOffset ≤ a.1.range.startOffset := by
    have hindexed : mathFormulas.zipIdx.Pairwise fun a b : IndexedFormula =>
        a.1.range.endOffset ≤ b.1.range.startOffset ∨
          b.1.range.endOffset ≤ a.1.range.startOffset := by
      rw [← List.pairwise_map (f := Prod.fst) (R := fun a b : MathFormula =>
        a.range.endOffset ≤ b.range.startOffset ∨ b.range.endOffset ≤ a.range.startOffset),
        List.zipIdx_map_fst]
      exact h.apart
    exact (hindexed.sublist List.filter_sublist).perm (List.mergeSort_perm _ _).symm Or.symm
  refine ⟨havailable, fun formula hformula => h.positive _ (hmem formula hformula), ?_⟩
  refine (hsorted.and hapart).imp_of_mem fun {a b} ha hb hab => ?_
  obtain ⟨hless, hbefore | hbehind⟩ := hab
  · exact hbefore
  · have hpositive := h.positive _ (hmem b hb)
    have hpositive' := h.positive _ (hmem a ha)
    simp only [indexLess, rangeStartOffset, if_pos (havailable a ha), if_pos (havailable b hb)]
      at hless
    rw [if_pos (by omega)] at hless
    simp at hless
    omega

theorem InOrder.nodup (h : InOrder all) : all.Nodup := by
  refine h.sorted.imp_of_mem fun {a b} ha _ hab heq => ?_
  have hpositive := h.positive a ha
  rw [heq] at hpositive hab
  omega

/-- What is to be of a document with its formulas: a display formula that is in no table cell is
displayed once, they are displayed in order, no text is shown that is in one of them, and every
other byte that was shown is shown once. -/
structure ShownOnce (document normalized : MarkdownNode) (formulas : List MathFormula) : Prop where
  once : ∀ (index : Nat) formula, formulas[index]? = some formula → formula.kind = .Display →
    ¬InTableCell document (formula, index) →
      (mathNodes normalized).countP (fun math => math.formulaIndex = (index : Int)) = 1
  ordered : (mathNodes normalized).Pairwise fun a b => a.range.startOffset < b.range.startOffset
  apart : ∀ leaf ∈ leaves normalized, ∀ math ∈ mathNodes normalized, ∀ byte,
    leaf.range.Covers byte → ¬math.range.Covers byte
  covered : ∀ leaf ∈ leaves document, ∀ byte, leaf.range.Covers byte →
    (∀ math ∈ mathNodes normalized, ¬math.range.Covers byte) →
      (leaves normalized).countP (·.range.Covers byte) = 1

/-- A formula in which a text is shown gets to a paragraph. -/
def TextsReached (document : MarkdownNode) (formulas : List MathFormula) : Prop :=
  ∀ formula ∈ displayFormulaIndexes formulas, ∀ leaf ∈ leaves document, ∀ byte,
    leaf.range.Covers byte → formula.1.range.Covers byte →
      Reached (displayFormulaIndexes formulas) formula document

theorem cover_pos_iff : 0 < cover node byte ↔ ∃ leaf ∈ leaves node, leaf.range.Covers byte := by
  rw [cover, List.countP_pos_iff]
  simp

section

variable {document : MarkdownNode} {kept : List IndexedFormula} (hall : InOrder all)
  (hsub : kept.Sublist all)
include hall hsub

/-- **A formula that is kept** is displayed once. -/
theorem countP_mathFields (hindex : ∀ formula ∈ all, ∀ other ∈ all,
      formula.2 = other.2 → formula = other) (hmem : formula ∈ kept) :
    (kept.map mathFields).countP (fun math => math.formulaIndex = (formula.2 : Int)) = 1 := by
  rw [List.countP_map, ← List.count_eq_one_of_mem (hall.nodup.sublist hsub) hmem, List.count]
  refine List.countP_congr fun other hother => ?_
  rw [Function.comp_apply, decide_eq_true_eq, beq_iff_eq]
  have hfields : (mathFields other).formulaIndex = other.2 := rfl
  rw [hfields]
  constructor
  · intro heq
    exact hindex other (hsub.mem hother) formula (hsub.mem hmem) (by exact_mod_cast heq)
  · rintro rfl
    rfl

theorem pairwise_mathFields : (kept.map mathFields).Pairwise fun a b =>
    a.range.startOffset < b.range.startOffset := by
  refine List.pairwise_map.mpr ((hall.sorted.sublist hsub).imp_of_mem fun {a b} ha _ hab => ?_)
  exact (hall.positive a (hsub.mem ha)).trans_le hab

variable {normalized : MarkdownNode} (hmath : mathNodes normalized = kept.map mathFields)
  (hcell : ∀ formula ∈ all, formula ∉ kept → ∀ byte, formula.1.range.Covers byte →
    cover document byte = 0)
  (hkeeps : ∀ byte, Keeps (CutOut all byte fun formula => Reached all formula document)
    (cover normalized byte) (cover document byte))
include hmath hcell hkeeps

omit hall hsub in
/-- **Every other byte** is shown once. -/
theorem covered_once (hplaced : WellPlaced source document) {leaf : NodeFields}
    (hleaf : leaf ∈ leaves document) (hcovers : leaf.range.Covers byte)
    (hnot : ∀ math ∈ mathNodes normalized, ¬math.range.Covers byte) :
    cover normalized byte = 1 := by
  have hpos : 0 < cover document byte := cover_pos_iff.mpr ⟨leaf, hleaf, hcovers⟩
  have hcut : ¬CutOut all byte fun formula => Reached all formula document := by
    rintro ⟨formula, hformula, hcovers', -⟩
    by_cases hkept : formula ∈ kept
    · refine hnot (mathFields formula) ?_ hcovers'
      rw [hmath]
      exact List.mem_map_of_mem hkept
    · have hzero := hcell formula hformula hkept byte hcovers'
      omega
  rw [(hkeeps byte).2 hcut]
  exact le_antisymm (cover_le_one hplaced byte) hpos

/-- **No text is shown in a formula** if and only if each one with a text gets to a paragraph. -/
theorem apart_iff_reached :
    (∀ leaf ∈ leaves normalized, ∀ math ∈ mathNodes normalized, ∀ byte,
      leaf.range.Covers byte → ¬math.range.Covers byte) ↔
    ∀ formula ∈ all, ∀ leaf ∈ leaves document, ∀ byte, leaf.range.Covers byte →
      formula.1.range.Covers byte → Reached all formula document := by
  constructor
  · intro h formula hformula leaf hleaf byte hcovers hcovers'
    have hpos : 0 < cover document byte := cover_pos_iff.mpr ⟨leaf, hleaf, hcovers⟩
    have hkept : formula ∈ kept := by
      by_contra hnot
      have hzero := hcell formula hformula hnot byte hcovers'
      omega
    by_contra hreached
    have hcut : ¬CutOut all byte fun formula => Reached all formula document := by
      rintro ⟨other, hother, hcovers'', hreached'⟩
      -- formulas with the same byte are the same
      have heq : other = formula := by
        by_contra hne
        obtain ⟨-, hfirst, hlast⟩ := hcovers'
        obtain ⟨-, hfirst', hlast'⟩ := hcovers''
        have hapart := hall.apart hother hformula hne
        omega
      exact hreached (heq ▸ hreached')
    rw [← (hkeeps byte).2 hcut] at hpos
    obtain ⟨shown, hshown, hcovers''⟩ := cover_pos_iff.mp hpos
    refine h shown hshown (mathFields formula) ?_ byte hcovers'' hcovers'
    rw [hmath]
    exact List.mem_map_of_mem hkept
  · intro h shown hshown math hmem byte hcovers hcovers'
    rw [hmath] at hmem
    obtain ⟨formula, hkept, rfl⟩ := List.mem_map.mp hmem
    have hpos : 0 < cover normalized byte := cover_pos_iff.mpr ⟨shown, hshown, hcovers⟩
    by_cases hcut : CutOut all byte fun formula => Reached all formula document
    · have hzero := (hkeeps byte).1 hcut
      omega
    · rw [(hkeeps byte).2 hcut] at hpos
      obtain ⟨leaf, hleaf, hcovers''⟩ := cover_pos_iff.mp hpos
      exact hcut ⟨formula, hsub.mem hkept, hcovers',
        h formula (hsub.mem hkept) leaf hleaf byte hcovers'' hcovers'⟩

end

/-- **Every display formula is shown once, and nothing twice**, if and only if each formula in which
a text is shown gets to a paragraph. -/
theorem normalizeDisplayMathBlocks_iff (source : Bytes) (document : PreparedDocument)
    (hplaced : WellPlaced source document.document)
    (hkind : document.document.label.kind = .Document)
    (hformulas : FormulasApart document.formulas) :
    ShownOnce document.document
        (normalizeDisplayMathBlocks source (buildLineStarts source) document).document
        document.formulas ↔
      TextsReached document.document document.formulas := by
  have hall := inOrder_displayFormulaIndexes hformulas
  have hcontainer : canNormalizeDisplayMathChildren document.document.label.kind := by
    rw [hkind]
    rfl
  have hnormalized :
      (normalizeDisplayMathBlocks source (buildLineStarts source) document).document =
      normalizeDisplayMathChildren source (buildLineStarts source) document.document
        (displayFormulaIndexes document.formulas) := by
    rw [normalizeDisplayMathBlocks]
    simp only
    split
    · next hnil =>
      rw [List.isEmpty_iff.mp hnil]
      obtain ⟨fields, children⟩ := document.document
      rfl
    · rfl
  obtain ⟨kept, hsub, hmath, hcells⟩ := (displays_normalize source (buildLineStarts source)).1
    document.document hplaced (hplaced.placed.containers hcontainer)
    (displayFormulaIndexes document.formulas)
  have hcell : ∀ formula ∈ displayFormulaIndexes document.formulas, formula ∉ kept →
      ∀ byte, formula.1.range.Covers byte → cover document.document byte = 0 :=
    fun formula hformula hnot byte hcovers =>
      cover_of_inTableCell hplaced (hcells formula hformula hnot) hcovers
  have hkeeps := fun byte => cover_normalize hall byte document.document hplaced hcontainer _
    (slice_refl (displayFormulaIndexes document.formulas) document.document)
  have hiff := apart_iff_reached hall hsub hmath hcell hkeeps
  rw [hnormalized]
  constructor
  · exact fun h => hiff.mp h.apart
  · intro h
    refine ⟨fun index formula hformula hdisplay hnot => ?_, ?_, hiff.mpr h,
      fun leaf hleaf byte hcovers hnot =>
        covered_once hmath hcell hkeeps hplaced hleaf hcovers hnot⟩
    · have hmem : (formula, index) ∈ displayFormulaIndexes document.formulas :=
        mem_displayFormulaIndexes.mpr ⟨hformula, hdisplay⟩
      have hkept : (formula, index) ∈ kept := by
        by_contra hkept
        exact hnot (hcells _ hmem hkept)
      rw [hmath]
      refine countP_mathFields hall hsub (fun a ha b hb heq => ?_) hkept
      rw [mem_displayFormulaIndexes] at ha hb
      rw [heq, hb.1, Option.some_inj] at ha
      exact Prod.ext ha.1.symm heq
    · rw [hmath]
      exact pairwise_mathFields hall hsub

/-! ## A formula in a block -/

/-- The range of offsets in the first line. -/
def lineRange (start end_ : Int) : SourceRange where
  available := true
  startLine := 1
  startColumn := start + 1
  endLine := 1
  endColumn := end_
  startOffset := start
  endOffset := end_

/-- A display formula behind two bytes. -/
def formulaBehind : MathFormula where
  index := 0
  kind := .Display
  tex := [0x78]
  range := lineRange 2 7
  parentNodeKind := "heading"

/-- A document of one block, with a text that has the formula. -/
def documentOf (kind : NodeKind) : PreparedDocument where
  document :=
    .node { kind := .Document, range := lineRange 0 7 }
      [.node { kind, range := lineRange 0 7 }
        [.node { kind := .Text, range := lineRange 2 7, text := ['$', '$', 'x', '$', '$'] } []]]
  formulas := [formulaBehind]

theorem displayFormulaIndexes_formulaBehind :
    displayFormulaIndexes [formulaBehind] = [(formulaBehind, 0)] := by
  simp [displayFormulaIndexes, formulaBehind]

theorem formulasApart_documentOf (kind : NodeKind) : FormulasApart (documentOf kind).formulas := by
  refine ⟨?_, ?_, List.pairwise_singleton _ _⟩
  · simp [documentOf, formulaBehind, lineRange]
  · simp [documentOf, formulaBehind, lineRange]

theorem wellPlaced_documentOf {kind : NodeKind} (hkind : kind = .Heading ∨ kind = .Paragraph)
    {source : Bytes} (hlength : source.length = 7) :
    WellPlaced source (documentOf kind).document := by
  simp only [documentOf, wellPlaced_node, List.forall_mem_singleton]
  refine ⟨?_, ?_, ?_, by simp⟩
  · constructor <;>
      simp [lineRange, hlength, isBreakNode, canNormalizeDisplayMathChildren]
  · obtain rfl | rfl := hkind
    · constructor <;>
        simp [lineRange, hlength, isBreakNode, canNormalizeDisplayMathChildren]
    · constructor <;>
        simp [lineRange, hlength, isBreakNode, canNormalizeDisplayMathChildren]
  · constructor <;>
      simp [lineRange, hlength, isBreakNode, canNormalizeDisplayMathChildren]

/-- The paragraph `a $$x$$`. -/
theorem normalizeDisplayMathBlocks_paragraph :
    ShownOnce (documentOf .Paragraph).document
      (normalizeDisplayMathBlocks [0x61, 0x20, 0x24, 0x24, 0x78, 0x24, 0x24]
        (buildLineStarts [0x61, 0x20, 0x24, 0x24, 0x78, 0x24, 0x24])
        (documentOf .Paragraph)).document (documentOf .Paragraph).formulas := by
  refine (normalizeDisplayMathBlocks_iff [0x61, 0x20, 0x24, 0x24, 0x78, 0x24, 0x24]
    (documentOf .Paragraph) (wellPlaced_documentOf (.inr rfl) rfl) rfl
    (formulasApart_documentOf .Paragraph)).mpr ?_
  have hformulas : (documentOf .Paragraph).formulas = [formulaBehind] := rfl
  rw [hformulas, TextsReached, displayFormulaIndexes_formulaBehind]
  intro formula hformula leaf _ byte _ _
  obtain rfl := List.mem_singleton.mp hformula
  exact .paragraph List.mem_cons_self ⟨by decide, by decide⟩ rfl

/-- The formula of the heading `# $$x$$` is shown as a block, and in the heading. -/
theorem not_normalizeDisplayMathBlocks :
    WellPlaced [0x23, 0x20, 0x24, 0x24, 0x78, 0x24, 0x24] (documentOf .Heading).document ∧
    (documentOf .Heading).document.label.kind = .Document ∧
    FormulasApart (documentOf .Heading).formulas ∧
    ¬ShownOnce (documentOf .Heading).document
      (normalizeDisplayMathBlocks [0x23, 0x20, 0x24, 0x24, 0x78, 0x24, 0x24]
        (buildLineStarts [0x23, 0x20, 0x24, 0x24, 0x78, 0x24, 0x24])
        (documentOf .Heading)).document (documentOf .Heading).formulas := by
  refine ⟨wellPlaced_documentOf (.inl rfl) rfl, rfl, formulasApart_documentOf .Heading,
    fun h => ?_⟩
  have hnormalized : (normalizeDisplayMathBlocks [0x23, 0x20, 0x24, 0x24, 0x78, 0x24, 0x24]
      (buildLineStarts [0x23, 0x20, 0x24, 0x24, 0x78, 0x24, 0x24])
      (documentOf .Heading)).document =
        .node { kind := .Document, range := lineRange 0 7 }
          [.node { kind := .Heading, range := lineRange 0 7 }
            [.node { kind := .Text, range := lineRange 2 7, text := ['$', '$', 'x', '$', '$'] } []],
          displayMathNode formulaBehind 0] := by
    have hformulas : (documentOf .Heading).formulas = [formulaBehind] := rfl
    rw [normalizeDisplayMathBlocks, hformulas, displayFormulaIndexes_formulaBehind]
    rfl
  rw [hnormalized] at h
  refine h.apart { kind := .Text, range := lineRange 2 7, text := ['$', '$', 'x', '$', '$'] } ?_
    (mathFields (formulaBehind, 0)) ?_ 2 (by decide) (by decide)
  · exact List.mem_cons_self
  · exact List.mem_cons_self

end Markdown

end Iv

end MessengerClient
