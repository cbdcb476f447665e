import MessengerClient.Lib.Edges
import MessengerClient.RichMessageSerializer
import Mathlib

/-!
# MessengerClient.RichMessageSerializer.Steps

What the parts of the normalization come to: the trimmed range as a trimmed list, the text of a
list item or of a quote with its blocks, and the loops over blocks, items and rows.
-/

namespace MessengerClient

namespace Iv

namespace RichMessage

variable {context : SerializeContext} {text : RichText} {anchorId : String}
  {normalizedBlocks : Normalized (List Block)}

/-! ## The trimmed range -/

theorem take_till (blocks : List Block) :
    blocks.take (FindTrimEmptyParagraphEdgesRange blocks).till =
      blocks.takeWhile ParagraphHasTrimmableEdges ++
        trimEdges ParagraphHasTrimmableEdges blocks := by
  have hsplit := @List.takeWhile_append_dropWhile _ ParagraphHasTrimmableEdges blocks
  have hdrop : blocks.drop (blocks.takeWhile ParagraphHasTrimmableEdges).length =
      blocks.dropWhile ParagraphHasTrimmableEdges := by
    calc blocks.drop (blocks.takeWhile ParagraphHasTrimmableEdges).length
        = (blocks.takeWhile ParagraphHasTrimmableEdges ++
            blocks.dropWhile ParagraphHasTrimmableEdges).drop
            (blocks.takeWhile ParagraphHasTrimmableEdges).length := by rw [hsplit]
      _ = blocks.dropWhile ParagraphHasTrimmableEdges := List.drop_left
  simp only [FindTrimEmptyParagraphEdgesRange, hdrop]
  calc blocks.take ((blocks.takeWhile ParagraphHasTrimmableEdges).length +
        (trimEdges ParagraphHasTrimmableEdges blocks).length)
      = (blocks.takeWhile ParagraphHasTrimmableEdges ++
          blocks.dropWhile ParagraphHasTrimmableEdges).take
          ((blocks.takeWhile ParagraphHasTrimmableEdges).length +
            (trimEdges ParagraphHasTrimmableEdges blocks).length) := by rw [hsplit]
    _ = blocks.takeWhile ParagraphHasTrimmableEdges ++
          (blocks.dropWhile ParagraphHasTrimmableEdges).take
            (trimEdges ParagraphHasTrimmableEdges blocks).length := by
        rw [List.take_length_add_append]
    _ = _ := by
        congr 1
        exact (List.prefix_iff_eq_take.mp (List.rdropWhile_prefix _ _)).symm

theorem drop_from_take_till (blocks : List Block) :
    (blocks.take (FindTrimEmptyParagraphEdgesRange blocks).till).drop
      (FindTrimEmptyParagraphEdgesRange blocks).from_ =
        trimEdges ParagraphHasTrimmableEdges blocks := by
  rw [take_till]
  exact List.drop_left

theorem trimEmptyParagraphEdges_eq (blocks : List Block) :
    TrimEmptyParagraphEdges blocks = trimEdges ParagraphHasTrimmableEdges blocks :=
  drop_from_take_till blocks

/-! ## Texts with blocks -/

/-- A text without content goes, and the blocks after it are trimmed at both edges. -/
theorem hybridSurface_of_trimmable
    (h : ParagraphHasTrimmableEdges (paragraph text anchorId) = true) :
    NormalizeFinalSubmitHybridSurface text anchorId normalizedBlocks =
      ⟨⟨{}, "", trimEdges ParagraphHasTrimmableEdges normalizedBlocks.value⟩,
        normalizedBlocks.hasMeaningfulContent, normalizedBlocks.hasRealContent⟩ := by
  have hdrop := drop_from_take_till (paragraph text anchorId :: normalizedBlocks.value)
  have hfrom : (FindTrimEmptyParagraphEdgesRange
      (paragraph text anchorId :: normalizedBlocks.value)).from_ =
        (normalizedBlocks.value.takeWhile ParagraphHasTrimmableEdges).length + 1 := by
    rw [FindTrimEmptyParagraphEdgesRange, List.takeWhile_cons_of_pos h, List.length_cons]
  have htrim : trimEdges ParagraphHasTrimmableEdges
      (paragraph text anchorId :: normalizedBlocks.value) =
        trimEdges ParagraphHasTrimmableEdges normalizedBlocks.value := by
    rw [trimEdges, List.dropWhile_cons_of_pos h, trimEdges]
  simp only [NormalizeFinalSubmitHybridSurface]
  rw [hfrom] at hdrop ⊢
  rw [if_neg (by omega), max_eq_left (by omega), hdrop, htrim, Normalized.push]
  simp only [Bool.false_or]

/-- A text with content stays, and the blocks after it are trimmed at the back. -/
theorem hybridSurface_of_not_trimmable
    (h : ParagraphHasTrimmableEdges (paragraph text anchorId) = false) :
    NormalizeFinalSubmitHybridSurface text anchorId normalizedBlocks =
      ⟨⟨text, anchorId, normalizedBlocks.value.rdropWhile ParagraphHasTrimmableEdges⟩,
        RichTextHasVisibleText text || normalizedBlocks.hasMeaningfulContent,
        RichTextHasVisibleText text || normalizedBlocks.hasRealContent⟩ := by
  have hneg : ¬ParagraphHasTrimmableEdges (paragraph text anchorId) = true := by simp [h]
  have hfrom : (FindTrimEmptyParagraphEdgesRange
      (paragraph text anchorId :: normalizedBlocks.value)).from_ = 0 := by
    rw [FindTrimEmptyParagraphEdgesRange, List.takeWhile_cons_of_neg hneg, List.length_nil]
  have htrim : trimEdges ParagraphHasTrimmableEdges
      (paragraph text anchorId :: normalizedBlocks.value) =
        paragraph text anchorId ::
          normalizedBlocks.value.rdropWhile ParagraphHasTrimmableEdges := by
    rw [trimEdges, List.dropWhile_cons_of_neg hneg]
    exact rdropWhile_cons_of_not h
  have hdrop := drop_from_take_till (paragraph text anchorId :: normalizedBlocks.value)
  rw [hfrom, List.drop_zero, htrim] at hdrop
  have htill : (FindTrimEmptyParagraphEdgesRange
      (paragraph text anchorId :: normalizedBlocks.value)).till > 0 := by
    refine Nat.pos_of_ne_zero fun hzero => ?_
    rw [hzero] at hdrop
    cases hdrop
  simp only [NormalizeFinalSubmitHybridSurface]
  rw [if_pos ⟨hfrom, htill⟩, hfrom, max_eq_right (Nat.zero_le 1), hdrop, Normalized.push]
  rfl

/-! ## Loops -/

variable (context)

/-- What is kept of a block. -/
def kept (block : Block) : List Block := (NormalizeFinalSubmitBlock context block).value.toList

def meaningful (block : Block) : Bool :=
  (NormalizeFinalSubmitBlock context block).hasMeaningfulContent

def real (block : Block) : Bool := (NormalizeFinalSubmitBlock context block).hasRealContent

theorem normalizeEach_eq (blocks : List Block) :
    normalizeEach context blocks =
      ⟨blocks.flatMap (kept context), blocks.any (meaningful context),
        blocks.any (real context)⟩ := by
  induction blocks with
  | nil => rw [normalizeEach]; rfl
  | cons block blocks ih =>
      rw [normalizeEach, ih, Normalized.push]
      rfl

theorem normalizeItems_eq (items : List ListItem) :
    normalizeItems context items =
      ⟨items.map fun item => (NormalizeFinalSubmitListItem context item).value,
        items.any fun item => (NormalizeFinalSubmitListItem context item).hasMeaningfulContent,
        items.any fun item => (NormalizeFinalSubmitListItem context item).hasRealContent⟩ := by
  induction items with
  | nil => rw [normalizeItems]; rfl
  | cons item items ih =>
      rw [normalizeItems, ih, Normalized.push]
      rfl

variable {context}

/-- A row with a text that can be seen. -/
def rowHasVisibleText (row : TableRow) : Bool :=
  row.cells.any fun cell => RichTextHasVisibleText cell.text

theorem normalizeCells_eq (cells : List TableCell) :
    cells.foldr (fun cell rest => (NormalizeFinalSubmitTableCell cell).push List.cons rest)
      ⟨[], false, false⟩ =
      ⟨cells, cells.any fun cell => RichTextHasVisibleText cell.text,
        cells.any fun cell => RichTextHasVisibleText cell.text⟩ := by
  induction cells with
  | nil => rfl
  | cons cell cells ih =>
      rw [List.foldr_cons, ih]
      rfl

theorem normalizeFinalSubmitTableRow_eq (row : TableRow) :
    NormalizeFinalSubmitTableRow row =
      ⟨if row.cells = [] then none else some row, rowHasVisibleText row,
        rowHasVisibleText row⟩ := by
  rw [NormalizeFinalSubmitTableRow, normalizeCells_eq]
  by_cases h : row.cells = []
  · rw [if_pos h, if_pos h, rowHasVisibleText, h]
    rfl
  · rw [if_neg h, if_neg h]
    rfl

theorem normalizeRows_eq (rows : List TableRow) :
    normalizeRows rows =
      ⟨rows.filter fun row => !decide (row.cells = []), rows.any rowHasVisibleText,
        rows.any rowHasVisibleText⟩ := by
  induction rows with
  | nil => rfl
  | cons row rows ih =>
      rw [normalizeRows, List.foldr_cons, ← normalizeRows, ih, normalizeFinalSubmitTableRow_eq,
        Normalized.push]
      by_cases h : row.cells = []
      · rw [if_pos h, List.filter_cons_of_neg (by simp [h])]
        rfl
      · rw [if_neg h, List.filter_cons_of_pos (by simp [h])]
        rfl

/-- Rows that were normalized stay as they are. -/
theorem normalizeRows_again (rows : List TableRow) :
    normalizeRows (normalizeRows rows).value = normalizeRows rows := by
  have hany : (rows.filter fun row => !decide (row.cells = [])).any rowHasVisibleText =
      rows.any rowHasVisibleText := by
    rw [List.any_filter]
    congr 1
    funext row
    by_cases h : row.cells = [] <;> simp [rowHasVisibleText, h]
  simp only [normalizeRows_eq, List.filter_filter, Bool.and_self, hany]

end RichMessage

end Iv

end MessengerClient
