import MessengerClient.RichMessageSerializer.Steps
import Mathlib

/-!
# MessengerClient.RichMessageSerializer.Shapes

What a kept block is made of, and the flags of a block as sums over what is in it, for all kinds
of blocks at once: the blocks and the list items of a block are normalized or left as they are, by
its kind.
-/

namespace MessengerClient

namespace Iv

namespace RichMessage

/-- How a block is normalized. -/
inductive Treatment where
  | text
  | formula
  | quote
  | list
  | table
  | details
  | other
deriving DecidableEq, Repr

namespace BlockKind

def treatment : BlockKind → Treatment
  | .Heading | .Footer | .Code | .Thinking => .text
  | .Math => .formula
  | .Quote => .quote
  | .List => .list
  | .Table => .table
  | .Details => .details
  | _ => .other

/-- The blocks of a block of the kind are normalized. -/
def normalizesBlocks (kind : BlockKind) : Bool :=
  match kind.treatment with
  | .quote | .details | .other => true
  | _ => false

theorem treatment_eq_quote {kind : BlockKind} (h : kind.treatment = .quote) : kind = .Quote := by
  cases kind <;> first | rfl | cases h

/-- So are its list items. -/
def normalizesItems (kind : BlockKind) : Bool :=
  match kind.treatment with
  | .list | .other => true
  | _ => false

end BlockKind

variable {context : SerializeContext} {data : BlockData} {blocks : List Block}
  {listItems : List ListItem} {normalizedBlocks : Normalized (List Block)}
  {normalizedItems : Normalized (List ListItem)} {block block' : Block} {item : ListItem}

theorem normalizeKind_eq :
    normalizeKind context data blocks listItems normalizedBlocks normalizedItems =
      match data.kind.treatment with
      | .text =>
        if RichTextHasVisibleText data.text = false then ⟨none, false, false⟩
        else ⟨some (.mk data blocks listItems), true, true⟩
      | .formula =>
        if StringIsEmpty data.formula then ⟨none, false, false⟩
        else ⟨some (.mk data blocks listItems), true, true⟩
      | .quote => normalizeQuote data blocks listItems normalizedBlocks
      | .list => normalizeList data blocks normalizedItems
      | .table => normalizeTable data blocks listItems
      | .details => normalizeDetails data listItems normalizedBlocks
      | .other => normalizeOther context data normalizedBlocks normalizedItems := by
  rw [normalizeKind]
  cases data.kind <;> rfl

/-! ## Texts with blocks -/

/-- A text if it can be seen. -/
def shown (text : RichText) : List RichText := if RichTextHasVisibleText text then [text] else []

/-- A text and the blocks after it, of which the text is none if it is empty. -/
def surfaceContent (text : RichText) (anchorId : String) (blocks : List Block) : List Block :=
  if ParagraphHasTrimmableEdges (paragraph text anchorId) then blocks
  else paragraph text anchorId :: blocks

theorem visible_eq_of_shown {text text' : RichText} (h : shown text' = shown text) :
    RichTextHasVisibleText text' = RichTextHasVisibleText text := by
  unfold shown at h
  cases hvisible : RichTextHasVisibleText text' <;>
    cases hvisible' : RichTextHasVisibleText text <;> simp [hvisible, hvisible'] at h <;> rfl

theorem visible_of_trimmable {text : RichText} {anchorId : String}
    (h : ParagraphHasTrimmableEdges (paragraph text anchorId) = true) :
    RichTextHasVisibleText text = false := by
  simp only [ParagraphHasTrimmableEdges, paragraph, Block.data, RichTextIsStructurallyEmpty,
    Bool.and_eq_true] at h
  rw [RichTextHasVisibleText, h.2.1, Bool.not_true]

/-- **What becomes of a text with blocks.** -/
structure Surfaced (text : RichText) (anchorId : String)
    (normalizedBlocks : Normalized (List Block)) (surface : Normalized HybridSurface) : Prop where
  trimmed : TrimmedTo ParagraphHasTrimmableEdges normalizedBlocks.value surface.value.blocks
  shown : shown surface.value.text = shown text
  anchor : anchorId = "" → surface.value.anchorId = ""
  meaningful : surface.hasMeaningfulContent =
    (RichTextHasVisibleText surface.value.text || normalizedBlocks.hasMeaningfulContent)
  real : surface.hasRealContent =
    (RichTextHasVisibleText surface.value.text || normalizedBlocks.hasRealContent)
  edges : EdgesKept ParagraphHasTrimmableEdges
    (surfaceContent surface.value.text surface.value.anchorId surface.value.blocks)
  again : ∀ m r, NormalizeFinalSubmitHybridSurface surface.value.text surface.value.anchorId
    ⟨surface.value.blocks, m, r⟩ =
      ⟨surface.value, RichTextHasVisibleText surface.value.text || m,
        RichTextHasVisibleText surface.value.text || r⟩

theorem surfaced (text : RichText) (anchorId : String)
    (normalizedBlocks : Normalized (List Block)) :
    Surfaced text anchorId normalizedBlocks
      (NormalizeFinalSubmitHybridSurface text anchorId normalizedBlocks) := by
  by_cases htrim : ParagraphHasTrimmableEdges (paragraph text anchorId) = true
  · have hempty : ParagraphHasTrimmableEdges (paragraph {} "") = true := by decide +kernel
    have hvisible : RichTextHasVisibleText {} = false := visible_of_trimmable hempty
    rw [hybridSurface_of_trimmable htrim]
    constructor
    · exact trimmedTo_trimEdges _ _
    · simp only [shown, hvisible, visible_of_trimmable htrim, Bool.false_eq_true, if_false]
    · exact fun _ => rfl
    · rw [hvisible, Bool.false_or]
    · rw [hvisible, Bool.false_or]
    · rw [surfaceContent, if_pos hempty]
      exact edgesKept_trimEdges _ _
    · intro m r
      rw [hybridSurface_of_trimmable hempty, trimEdges_trimEdges, hvisible, Bool.false_or,
        Bool.false_or]
  · have hnot : ParagraphHasTrimmableEdges (paragraph text anchorId) = false := by
      simpa using htrim
    rw [hybridSurface_of_not_trimmable hnot]
    constructor
    · exact trimmedTo_rdropWhile _ _
    · rfl
    · exact id
    · rfl
    · rfl
    · have hedges := edgesKept_trimEdges ParagraphHasTrimmableEdges
        (paragraph text anchorId :: normalizedBlocks.value)
      rw [trimEdges, List.dropWhile_cons_of_neg htrim, rdropWhile_cons_of_not hnot] at hedges
      rw [surfaceContent, if_neg htrim]
      exact hedges
    · intro m r
      rw [hybridSurface_of_not_trimmable hnot, rdropWhile_rdropWhile]

/-! ## List items -/

/-- **What becomes of a list item.** -/
structure NormalItem (context : SerializeContext) (item : ListItem)
    (normalized : Normalized ListItem) : Prop where
  trimmed : TrimmedTo ParagraphHasTrimmableEdges (item.blocks.flatMap (kept context))
    normalized.value.blocks
  shown : shown normalized.value.data.text = shown item.data.text
  meaningful : normalized.hasMeaningfulContent =
    (RichTextHasVisibleText item.data.text || item.blocks.any (meaningful context))
  real : normalized.hasRealContent =
    (RichTextHasVisibleText item.data.text || item.blocks.any (real context))
  edges : EdgesKept ParagraphHasTrimmableEdges (surfaceContent normalized.value.data.text
    normalized.value.data.anchorId normalized.value.blocks)
  again : normalized.value.blocks.flatMap (kept context) = normalized.value.blocks →
    (NormalizeFinalSubmitListItem context normalized.value).value = normalized.value

theorem edgesKept_surfaceContent_nil (text : RichText) (anchorId : String) :
    EdgesKept ParagraphHasTrimmableEdges (surfaceContent text anchorId []) := by
  rw [surfaceContent]
  split
  · constructor <;> simp
  · next h => constructor <;> simpa using h

theorem normalItem (context : SerializeContext) (item : ListItem) :
    NormalItem context item (NormalizeFinalSubmitListItem context item) := by
  obtain ⟨data, blocks⟩ := item
  rw [NormalizeFinalSubmitListItem, normalizeItem, normalizeEach_eq]
  by_cases hnil : blocks = []
  · rw [if_pos hnil, hnil]
    constructor
    · exact TrimmedTo.refl _ _
    · rfl
    · simp [ListItem.data, ListItem.blocks]
    · simp [ListItem.data, ListItem.blocks]
    · exact edgesKept_surfaceContent_nil _ _
    · intro _
      rw [NormalizeFinalSubmitListItem, normalizeItem, if_pos rfl]
  · rw [if_neg hnil]
    have hsurface := surfaced data.text data.anchorId ⟨blocks.flatMap (kept context),
      blocks.any (meaningful context), blocks.any (real context)⟩
    have hvisible := visible_eq_of_shown hsurface.shown
    constructor
    · exact hsurface.trimmed
    · exact hsurface.shown
    · exact hsurface.meaningful.trans (by rw [hvisible]; rfl)
    · exact hsurface.real.trans (by rw [hvisible]; rfl)
    · exact hsurface.edges
    · intro hblocks
      dsimp only [ListItem.blocks] at hblocks
      rw [NormalizeFinalSubmitListItem, normalizeItem, normalizeEach_eq, hblocks]
      split
      · next hnil' =>
        simp only [ListItem.mk.injEq, true_and]
        exact hnil'.symm
      · simp only [hsurface.again]

/-! ## Quotes -/

/-- The blocks of a quote, after its text unless that is a pull quote's. -/
def quoteBody (data : BlockData) (blocks : List Block) : List Block :=
  if data.pullquote then blocks else surfaceContent data.text "" blocks

theorem or_visible (a b : Bool) : ((a || b) || a) = (a || b) := by
  cases a <;> cases b <;> rfl

/-- **What becomes of the text and the blocks of a quote.** -/
structure NormalQuote (context : SerializeContext) (data : BlockData) (blocks : List Block)
    (content : Normalized (RichText × List Block)) : Prop where
  trimmed : TrimmedTo ParagraphHasTrimmableEdges (blocks.flatMap (kept context)) content.value.2
  shown : shown content.value.1 = shown data.text
  meaningful : (content.hasMeaningfulContent || RichTextHasVisibleText content.value.1) =
    (RichTextHasVisibleText data.text || blocks.any (meaningful context))
  real : (content.hasRealContent || RichTextHasVisibleText content.value.1) =
    (RichTextHasVisibleText data.text || blocks.any (real context))
  edges : EdgesKept ParagraphHasTrimmableEdges
    (quoteBody { data with text := content.value.1 } content.value.2)
  again : content.value.2.flatMap (kept context) = content.value.2 →
    (quoteContent { data with text := content.value.1 } content.value.2
      (normalizeEach context content.value.2)).value = content.value

theorem normalQuote (context : SerializeContext) (data : BlockData) (blocks : List Block) :
    NormalQuote context data blocks (quoteContent data blocks (normalizeEach context blocks)) := by
  rw [normalizeEach_eq, quoteContent]
  by_cases hnil : blocks = []
  · rw [if_neg (by simp [hnil]), if_neg (by simp [hnil]), hnil]
    constructor
    · exact TrimmedTo.refl _ _
    · rfl
    · simp
    · simp
    · rw [quoteBody]
      split
      · constructor <;> simp
      · exact edgesKept_surfaceContent_nil _ _
    · intro _
      rw [quoteContent, if_neg (by simp), if_neg (by simp)]
  · by_cases hpull : data.pullquote = true
    · rw [if_neg (by simp [hpull]), if_pos hnil]
      constructor
      · rw [Normalized.trimmed, trimEmptyParagraphEdges_eq]
        exact trimmedTo_trimEdges _ _
      · rfl
      · exact Bool.or_comm _ _
      · exact Bool.or_comm _ _
      · rw [quoteBody, if_pos hpull, Normalized.trimmed, trimEmptyParagraphEdges_eq]
        exact edgesKept_trimEdges _ _
      · intro hblocks
        rw [quoteContent, if_neg (by simp [hpull])]
        split
        · next hne =>
          rw [normalizeEach_eq, hblocks]
          simp only [Normalized.trimmed, trimEmptyParagraphEdges_eq, trimEdges_trimEdges]
        · next hnil' =>
          rw [not_not] at hnil'
          rw [← hnil']
    · have hpull' : data.pullquote = false := by simpa using hpull
      rw [if_pos ⟨hnil, hpull'⟩]
      have hsurface := surfaced data.text "" ⟨blocks.flatMap (kept context),
        blocks.any (meaningful context), blocks.any (real context)⟩
      generalize NormalizeFinalSubmitHybridSurface data.text "" _ = surface at hsurface ⊢
      have hvisible := visible_eq_of_shown hsurface.shown
      have hanchor := hsurface.anchor rfl
      constructor
      · exact hsurface.trimmed
      · exact hsurface.shown
      · dsimp only
        rw [hsurface.meaningful, hvisible]
        exact or_visible _ _
      · dsimp only
        rw [hsurface.real, hvisible]
        exact or_visible _ _
      · rw [quoteBody, if_neg hpull, ← hanchor]
        exact hsurface.edges
      · intro hblocks
        have hagain := hsurface.again
        rw [hanchor] at hagain
        dsimp only at hblocks ⊢
        rw [normalizeEach_eq, hblocks, quoteContent]
        by_cases hnil' : surface.value.blocks = []
        · rw [if_neg (by simp [hnil']), if_neg (by simp [hnil']), hnil']
        · rw [if_pos ⟨hnil', hpull'⟩, hagain]

/-! ## Blocks -/

/-- What a block shows or holds itself. -/
def ownReal (context : SerializeContext) (data : BlockData) : Bool :=
  match data.kind.treatment with
  | .text | .quote => RichTextHasVisibleText data.text
  | .formula => !StringIsEmpty data.formula
  | .list | .details => false
  | .table => data.tableRows.any rowHasVisibleText
  | .other =>
    BlockHasOwnMeaningfulContent context data || data.tableRows.any rowHasVisibleText

/-- With the caption of a quote. -/
def ownMeaningful (context : SerializeContext) (data : BlockData) : Bool :=
  match data.kind.treatment with
  | .quote => RichTextHasVisibleText data.text || RichTextHasVisibleText data.caption
  | _ => ownReal context data

def itemReal (context : SerializeContext) (item : ListItem) : Bool :=
  RichTextHasVisibleText item.data.text || item.blocks.any (real context)

def itemMeaningful (context : SerializeContext) (item : ListItem) : Bool :=
  RichTextHasVisibleText item.data.text || item.blocks.any (meaningful context)

/-- A block with what is made of its blocks and items. -/
theorem normalizeFinalSubmitBlock_eq (context : SerializeContext) (data : BlockData)
    (blocks : List Block) (listItems : List ListItem) :
    NormalizeFinalSubmitBlock context (.mk data blocks listItems) =
      normalizeKind context data blocks listItems
        ⟨blocks.flatMap (kept context), blocks.any (meaningful context),
          blocks.any (real context)⟩
        ⟨listItems.map fun item => (NormalizeFinalSubmitListItem context item).value,
          listItems.any (itemMeaningful context), listItems.any (itemReal context)⟩ := by
  have hreal : (fun item => (NormalizeFinalSubmitListItem context item).hasRealContent) =
      itemReal context := funext fun item => (normalItem context item).real
  have hmeaningful :
      (fun item => (NormalizeFinalSubmitListItem context item).hasMeaningfulContent) =
      itemMeaningful context := funext fun item => (normalItem context item).meaningful
  rw [NormalizeFinalSubmitBlock, normalizeEach_eq, normalizeItems_eq, hreal, hmeaningful]

/-- What a block holds itself does not depend on its rows. -/
theorem blockHasOwnMeaningfulContent_rows (rows : List TableRow) :
    BlockHasOwnMeaningfulContent context { data with tableRows := rows } =
      BlockHasOwnMeaningfulContent context data := rfl

theorem real_eq (context : SerializeContext) (block : Block) : real context block =
    (ownReal context block.data ||
      block.data.kind.normalizesBlocks && block.blocks.any (real context) ||
      block.data.kind.normalizesItems && block.listItems.any (itemReal context)) := by
  obtain ⟨data, blocks, listItems⟩ := block
  rw [real, normalizeFinalSubmitBlock_eq, normalizeKind_eq]
  simp only [ownReal, BlockKind.normalizesBlocks, BlockKind.normalizesItems, Block.data,
    Block.blocks, Block.listItems]
  cases data.kind.treatment with
  | text => cases RichTextHasVisibleText data.text <;> simp
  | formula => cases StringIsEmpty data.formula <;> simp
  | quote =>
      have hquote := (normalQuote context data blocks).real
      rw [normalizeEach_eq] at hquote
      simp [normalizeQuote, hquote]
  | list => simp [normalizeList]
  | table => simp [normalizeTable, normalizeRows_eq]
  | details => simp [normalizeDetails, Normalized.trimmed]
  | other =>
      simp only [normalizeOther, Normalized.trimmed, blockHasOwnMeaningfulContent_rows,
        normalizeRows_eq]
      grind

theorem meaningful_eq (context : SerializeContext) (block : Block) : meaningful context block =
    (ownMeaningful context block.data ||
      block.data.kind.normalizesBlocks && block.blocks.any (meaningful context) ||
      block.data.kind.normalizesItems && block.listItems.any (itemMeaningful context)) := by
  obtain ⟨data, blocks, listItems⟩ := block
  rw [meaningful, normalizeFinalSubmitBlock_eq, normalizeKind_eq]
  simp only [ownMeaningful, ownReal, BlockKind.normalizesBlocks, BlockKind.normalizesItems,
    Block.data, Block.blocks, Block.listItems]
  cases data.kind.treatment with
  | text => cases RichTextHasVisibleText data.text <;> simp
  | formula => cases StringIsEmpty data.formula <;> simp
  | quote =>
      have hquote := (normalQuote context data blocks).meaningful
      rw [normalizeEach_eq] at hquote
      simp only [normalizeQuote, hquote]
      grind
  | list => simp [normalizeList]
  | table => simp [normalizeTable, normalizeRows_eq]
  | details => simp [normalizeDetails, Normalized.trimmed]
  | other =>
      simp only [normalizeOther, Normalized.trimmed, blockHasOwnMeaningfulContent_rows,
        normalizeRows_eq]
      grind

/-- **What a dropped block was made of.** -/
theorem dropped (h : kept context block = []) : ownReal context block.data = false ∧
    (block.data.kind.normalizesBlocks = true →
      TrimmedTo ParagraphHasTrimmableEdges (block.blocks.flatMap (kept context)) []) ∧
    (block.data.kind.normalizesItems = true → block.listItems = []) := by
  obtain ⟨data, blocks, listItems⟩ := block
  rw [kept, normalizeFinalSubmitBlock_eq, normalizeKind_eq] at h
  simp only [ownReal, BlockKind.normalizesBlocks, BlockKind.normalizesItems, Block.data,
    Block.blocks, Block.listItems]
  cases htreatment : data.kind.treatment with
  | text =>
      simp only [htreatment] at h
      split at h
      · next hvisible => simp [hvisible]
      · simp at h
  | formula =>
      simp only [htreatment] at h
      split at h
      · next hempty => simp [hempty]
      · simp at h
  | quote =>
      have hquote := normalQuote context data blocks
      have hvisible := visible_eq_of_shown hquote.shown
      rw [normalizeEach_eq] at hquote hvisible
      simp only [htreatment, normalizeQuote, Option.toList_eq_nil_iff, ite_eq_left_iff,
        reduceCtorEq, imp_false, not_not, Bool.or_eq_false_iff] at h
      refine ⟨hvisible ▸ h.2.2, fun _ => ?_, by simp⟩
      exact h.1 ▸ hquote.trimmed
  | list =>
      simp only [htreatment, normalizeList, Option.toList_eq_nil_iff, ite_eq_left_iff,
        reduceCtorEq, imp_false, not_not, List.map_eq_nil_iff] at h
      simp [h]
  | table =>
      simp only [htreatment, normalizeTable, normalizeRows_eq, Option.toList_eq_nil_iff,
        ite_eq_left_iff, reduceCtorEq, imp_false, not_not] at h
      simp [h]
  | details =>
      simp only [htreatment, normalizeDetails, Normalized.trimmed, trimEmptyParagraphEdges_eq,
        Option.toList_eq_nil_iff, ite_eq_left_iff, reduceCtorEq, imp_false, not_not] at h
      refine ⟨rfl, fun _ => ?_, by simp⟩
      exact h ▸ trimmedTo_trimEdges _ _
  | other =>
      simp only [htreatment, normalizeOther, Option.toList_some] at h
      cases h

/-- **What a kept block is made of**, and when it stays as it is. -/
structure Normal (context : SerializeContext) (block block' : Block) : Prop where
  data : ∃ text rows, block'.data = { block.data with text := text, tableRows := rows }
  shown : shown block'.data.text = shown block.data.text
  text : block.data.kind ≠ .Quote → block'.data.text = block.data.text
  rows : block'.data.tableRows = block.data.tableRows ∨
    block'.data.tableRows = (normalizeRows block.data.tableRows).value
  blocks : if block.data.kind.normalizesBlocks then
      TrimmedTo ParagraphHasTrimmableEdges (block.blocks.flatMap (kept context)) block'.blocks
    else block'.blocks = block.blocks
  items : block'.listItems = if block.data.kind.normalizesItems then
      block.listItems.map fun item => (NormalizeFinalSubmitListItem context item).value
    else block.listItems
  edges : block.data.kind = .Quote →
    EdgesKept ParagraphHasTrimmableEdges (quoteBody block'.data block'.blocks)
  again : (block.data.kind.normalizesBlocks = true →
      block'.blocks.flatMap (kept context) = block'.blocks) →
    (block.data.kind.normalizesItems = true → (block'.listItems.map fun item =>
      (NormalizeFinalSubmitListItem context item).value) = block'.listItems) →
    real context block' = real context block → kept context block' = [block']

/-- A block that is kept as it is. -/
theorem normal_self (hblocks : block.data.kind.normalizesBlocks = false)
    (hitems : block.data.kind.normalizesItems = false) (hkind : block.data.kind ≠ .Quote)
    (hkept : kept context block = [block]) : Normal context block block := by
  constructor
  · exact ⟨block.data.text, block.data.tableRows, rfl⟩
  · rfl
  · exact fun _ => rfl
  · exact .inl rfl
  · simp [hblocks]
  · simp [hitems]
  · exact fun h => absurd h hkind
  · exact fun _ _ _ => hkept

theorem normal (h : block' ∈ kept context block) : Normal context block block' := by
  obtain ⟨data, blocks, listItems⟩ := block
  have hkind : data.kind = .Quote → data.kind.treatment = .quote := by
    intro hkind
    rw [hkind]
    rfl
  have hkept := h
  rw [kept, normalizeFinalSubmitBlock_eq, normalizeKind_eq] at h
  cases htreatment : data.kind.treatment with
  | text =>
      simp only [htreatment] at h
      split at h
      · simp at h
      · next hvisible =>
        obtain rfl : block' = .mk data blocks listItems := by simpa using h
        refine normal_self ?_ ?_ ?_ ?_
        · simp [BlockKind.normalizesBlocks, Block.data, htreatment]
        · simp [BlockKind.normalizesItems, Block.data, htreatment]
        · exact fun heq => by rw [hkind heq] at htreatment; cases htreatment
        · rw [kept, normalizeFinalSubmitBlock_eq, normalizeKind_eq]
          simp only [htreatment]
          rw [if_neg hvisible]
          rfl
  | formula =>
      simp only [htreatment] at h
      split at h
      · simp at h
      · next hempty =>
        obtain rfl : block' = .mk data blocks listItems := by simpa using h
        refine normal_self ?_ ?_ ?_ ?_
        · simp [BlockKind.normalizesBlocks, Block.data, htreatment]
        · simp [BlockKind.normalizesItems, Block.data, htreatment]
        · exact fun heq => by rw [hkind heq] at htreatment; cases htreatment
        · rw [kept, normalizeFinalSubmitBlock_eq, normalizeKind_eq]
          simp only [htreatment]
          rw [if_neg hempty]
          rfl
  | quote =>
      have hquote := normalQuote context data blocks
      rw [normalizeEach_eq] at hquote
      simp only [htreatment, normalizeQuote] at h
      generalize hcontent : quoteContent data blocks _ = content at hquote h
      split at h
      · simp at h
      · next hnot =>
        obtain rfl : block' = .mk { data with text := content.value.1 } content.value.2 listItems :=
          by simpa using h
        constructor
        · exact ⟨_, data.tableRows, rfl⟩
        · exact hquote.shown
        · exact fun hne => absurd (BlockKind.treatment_eq_quote htreatment) hne
        · exact .inl rfl
        · simpa [BlockKind.normalizesBlocks, Block.data, Block.blocks, htreatment] using
            hquote.trimmed
        · simp [BlockKind.normalizesItems, Block.data, Block.listItems, htreatment]
        · exact fun _ => hquote.edges
        · intro hblocks _ hreal
          have hblocks := hblocks (by simp [BlockKind.normalizesBlocks, Block.data, htreatment])
          dsimp only [Block.blocks] at hblocks
          have hvalue := hquote.again hblocks
          rw [normalizeEach_eq, hblocks] at hvalue
          rw [real, real, normalizeFinalSubmitBlock_eq, normalizeFinalSubmitBlock_eq,
            normalizeKind_eq, normalizeKind_eq] at hreal
          simp only [htreatment, normalizeQuote, hcontent, hblocks] at hreal
          rw [kept, normalizeFinalSubmitBlock_eq, normalizeKind_eq]
          simp only [htreatment, normalizeQuote, hblocks, hvalue] at hreal ⊢
          rw [hreal, if_neg hnot]
          rfl
  | list =>
      simp only [htreatment, normalizeList] at h
      split at h
      · simp at h
      · next hne =>
        obtain rfl := Option.mem_toList.mp h |> Option.some.inj
        constructor
        · exact ⟨data.text, data.tableRows, rfl⟩
        · rfl
        · exact fun _ => rfl
        · exact .inl rfl
        · simp [BlockKind.normalizesBlocks, Block.data, Block.blocks, htreatment]
        · simp [BlockKind.normalizesItems, Block.data, Block.listItems, htreatment]
        · exact fun heq => by rw [hkind heq] at htreatment; cases htreatment
        · intro _ hitems _
          have hitems := hitems (by simp [BlockKind.normalizesItems, Block.data, htreatment])
          dsimp only [Block.listItems] at hitems
          rw [kept, normalizeFinalSubmitBlock_eq, normalizeKind_eq]
          simp only [htreatment, normalizeList, hitems]
          rw [if_neg hne]
          rfl
  | table =>
      simp only [htreatment, normalizeTable] at h
      split at h
      · simp at h
      · next hne =>
        obtain rfl := Option.mem_toList.mp h |> Option.some.inj
        constructor
        · exact ⟨data.text, _, rfl⟩
        · rfl
        · exact fun _ => rfl
        · exact .inr rfl
        · simp [BlockKind.normalizesBlocks, Block.data, Block.blocks, htreatment]
        · simp [BlockKind.normalizesItems, Block.data, Block.listItems, htreatment]
        · exact fun heq => by rw [hkind heq] at htreatment; cases htreatment
        · intro _ _ _
          rw [kept, normalizeFinalSubmitBlock_eq, normalizeKind_eq]
          simp only [htreatment, normalizeTable, normalizeRows_again]
          rw [if_neg hne]
          rfl
  | details =>
      simp only [htreatment, normalizeDetails, Normalized.trimmed, trimEmptyParagraphEdges_eq] at h
      split at h
      · simp at h
      · next hne =>
        obtain rfl := Option.mem_toList.mp h |> Option.some.inj
        constructor
        · exact ⟨data.text, data.tableRows, rfl⟩
        · rfl
        · exact fun _ => rfl
        · exact .inl rfl
        · simpa [BlockKind.normalizesBlocks, Block.data, Block.blocks, htreatment] using
            trimmedTo_trimEdges _ _
        · simp [BlockKind.normalizesItems, Block.data, Block.listItems, htreatment]
        · exact fun heq => by rw [hkind heq] at htreatment; cases htreatment
        · intro hblocks _ _
          have hblocks := hblocks (by simp [BlockKind.normalizesBlocks, Block.data, htreatment])
          dsimp only [Block.blocks] at hblocks
          rw [kept, normalizeFinalSubmitBlock_eq, normalizeKind_eq]
          simp only [htreatment, normalizeDetails, Normalized.trimmed, trimEmptyParagraphEdges_eq,
            hblocks, trimEdges_trimEdges]
          rw [if_neg hne]
          rfl
  | other =>
      simp only [htreatment, normalizeOther, Normalized.trimmed, trimEmptyParagraphEdges_eq] at h
      obtain rfl := Option.mem_toList.mp h |> Option.some.inj
      constructor
      · exact ⟨data.text, _, rfl⟩
      · rfl
      · exact fun _ => rfl
      · exact .inr rfl
      · simpa [BlockKind.normalizesBlocks, Block.data, Block.blocks, htreatment] using
          trimmedTo_trimEdges _ _
      · simp [BlockKind.normalizesItems, Block.data, Block.listItems, htreatment]
      · exact fun heq => by rw [hkind heq] at htreatment; cases htreatment
      · intro hblocks hitems _
        have hblocks := hblocks (by simp [BlockKind.normalizesBlocks, Block.data, htreatment])
        have hitems := hitems (by simp [BlockKind.normalizesItems, Block.data, htreatment])
        dsimp only [Block.blocks, Block.listItems] at hblocks hitems
        rw [kept, normalizeFinalSubmitBlock_eq, normalizeKind_eq]
        simp only [htreatment, normalizeOther, Normalized.trimmed, trimEmptyParagraphEdges_eq,
          hblocks, hitems, trimEdges_trimEdges, normalizeRows_again]
        rfl

end RichMessage

end Iv

end MessengerClient
