import MessengerClient.RichMessageSerializer.Shapes
import Mathlib

/-!
# MessengerClient.RichMessageSerializer.Stable

Normalizing once more changes nothing, for blocks of which the empty paragraphs hold nothing:
neither the blocks nor whether there is real content.  A flag that is lost is that of a quote that
has nothing but a caption, which is dropped.

Texts that can be seen stay in their order, no empty paragraph is left at an edge, and real
content is among the blocks that are kept (`normalizeFinalSubmitBlocks_stable`).
-/

namespace MessengerClient

namespace Iv

namespace RichMessage

variable {context : SerializeContext} {block block' within : Block} {blocks result : List Block}
  {item : ListItem}

/-! ## Blocks in blocks -/

/-- The blocks in a block that are normalized with it. -/
def Block.children (block : Block) : List Block :=
  (if block.data.kind.normalizesBlocks then block.blocks else []) ++
    if block.data.kind.normalizesItems then block.listItems.flatMap ListItem.blocks else []

/-- A block or one that is normalized in it. -/
inductive Within : Block → Block → Prop where
  | self (block : Block) : Within block block
  | child {block child within : Block} : child ∈ block.children → Within child within →
      Within block within

theorem Block.induction {P : Block → Prop}
    (hmk : ∀ data blocks listItems, (∀ block ∈ blocks, P block) →
      (∀ item ∈ listItems, ∀ block ∈ item.blocks, P block) → P (.mk data blocks listItems))
    (block : Block) : P block :=
  @Block.rec P (fun item => ∀ block ∈ item.blocks, P block)
    (fun blocks => ∀ block ∈ blocks, P block)
    (fun listItems => ∀ item ∈ listItems, ∀ block ∈ item.blocks, P block) hmk
    (fun _ _ hblocks => hblocks) (by simp)
    (fun _ _ hblock hblocks => List.forall_mem_cons.mpr ⟨hblock, hblocks⟩) (by simp)
    (fun _ _ hitem hitems => List.forall_mem_cons.mpr ⟨hitem, hitems⟩) block

theorem mem_children_of_blocks (hkind : block.data.kind.normalizesBlocks = true)
    (h : block' ∈ block.blocks) : block' ∈ block.children := by
  rw [Block.children, if_pos hkind]
  exact List.mem_append_left _ h

theorem mem_children_of_items (hkind : block.data.kind.normalizesItems = true)
    (hitem : item ∈ block.listItems) (h : block' ∈ item.blocks) : block' ∈ block.children := by
  rw [Block.children, if_pos hkind]
  exact List.mem_append_right _ (List.mem_flatMap.mpr ⟨item, hitem, h⟩)

/-- What holds of the blocks in a block holds of the blocks in its children. -/
theorem forall_within_child {P : Block → Prop} (h : ∀ within, Within block within → P within)
    (hchild : block' ∈ block.children) : ∀ within, Within block' within → P within :=
  fun within hwithin => h within (.child hchild hwithin)

/-- An empty paragraph holds nothing else. -/
def Plain (block : Block) : Prop :=
  ParagraphHasTrimmableEdges block = true → RichTextHasVisibleText block.data.caption = false ∧
    block.blocks = [] ∧ block.listItems = [] ∧ block.data.tableRows = []

variable (context) in
/-- A quote with a caption is not dropped. -/
def CaptionKept (block : Block) : Prop :=
  block.data.kind = .Quote → kept context block = [] →
    RichTextHasVisibleText block.data.caption = false

/-! ## Once more -/

variable (context) in
/-- **What normalizing a block leaves as it is.** -/
structure Stable (block : Block) : Prop where
  again : ∀ block' ∈ kept context block, kept context block' = [block']
  real_eq : (kept context block).any (real context) = real context block
  meaningful_of : (kept context block).any (meaningful context) = true →
    meaningful context block = true
  captions : (∀ within, Within block within → CaptionKept context within) →
    (kept context block).any (meaningful context) = meaningful context block
  empty : ∀ block' ∈ kept context block, ParagraphHasTrimmableEdges block' = true →
    real context block' = false ∧ meaningful context block' = false

/-- A loop over what is kept of stable blocks, with or without the empty paragraphs. -/
structure StableLoop (context : SerializeContext) (blocks result : List Block) : Prop where
  again : result.flatMap (kept context) = result
  real_eq : result.any (real context) = blocks.any (real context)
  meaningful_of : result.any (meaningful context) = true →
    blocks.any (meaningful context) = true
  captions : (∀ block ∈ blocks, ∀ within, Within block within → CaptionKept context within) →
    result.any (meaningful context) = blocks.any (meaningful context)

theorem any_congr {α : Type} {l : List α} {f g : α → Bool} (h : ∀ x ∈ l, f x = g x) :
    l.any f = l.any g := by
  induction l with
  | nil => rfl
  | cons x l ih =>
      obtain ⟨hx, hl⟩ := List.forall_mem_cons.mp h
      rw [List.any_cons, List.any_cons, hx, ih hl]

theorem stableLoop (h : ∀ block ∈ blocks, Stable context block)
    (hresult : TrimmedTo ParagraphHasTrimmableEdges (blocks.flatMap (kept context)) result) :
    StableLoop context blocks result := by
  have hempty : ∀ block' ∈ blocks.flatMap (kept context),
      ParagraphHasTrimmableEdges block' = true →
        real context block' = false ∧ meaningful context block' = false := by
    intro block' hmem
    obtain ⟨block, hblock, hmem⟩ := List.mem_flatMap.mp hmem
    exact (h block hblock).empty block' hmem
  have hmeaningful : result.any (meaningful context) =
      blocks.any fun block => (kept context block).any (meaningful context) := by
    rw [hresult.any_eq fun block' hmem htrim => (hempty block' hmem htrim).2, List.any_flatMap]
  constructor
  · have hsingle : ∀ block' ∈ result, kept context block' = [block'] := by
      intro block' hmem
      obtain ⟨block, hblock, hmem⟩ := List.mem_flatMap.mp (hresult.subset hmem)
      exact (h block hblock).again block' hmem
    rw [List.flatMap_congr hsingle, List.flatMap_singleton']
  · rw [hresult.any_eq fun block' hmem htrim => (hempty block' hmem htrim).1, List.any_flatMap]
    exact any_congr fun block hblock => (h block hblock).real_eq
  · rw [hmeaningful, List.any_eq_true, List.any_eq_true]
    rintro ⟨block, hblock, hany⟩
    exact ⟨block, hblock, (h block hblock).meaningful_of hany⟩
  · intro hcaptions
    rw [hmeaningful]
    exact any_congr fun block hblock => (h block hblock).captions (hcaptions block hblock)

/-- The same for a list item. -/
structure StableItem (context : SerializeContext) (item : ListItem) : Prop where
  again : (NormalizeFinalSubmitListItem context
    (NormalizeFinalSubmitListItem context item).value).value =
      (NormalizeFinalSubmitListItem context item).value
  real_eq : itemReal context (NormalizeFinalSubmitListItem context item).value =
    itemReal context item
  meaningful_of : itemMeaningful context (NormalizeFinalSubmitListItem context item).value = true →
    itemMeaningful context item = true
  captions : (∀ block ∈ item.blocks, ∀ within, Within block within →
      CaptionKept context within) →
    itemMeaningful context (NormalizeFinalSubmitListItem context item).value =
      itemMeaningful context item

theorem stableItem (h : ∀ block ∈ item.blocks, Stable context block) :
    StableItem context item := by
  have hitem := normalItem context item
  have hloop := stableLoop h hitem.trimmed
  have hvisible := visible_eq_of_shown hitem.shown
  constructor
  · exact hitem.again hloop.again
  · rw [itemReal, itemReal, hvisible, hloop.real_eq]
  · rw [itemMeaningful, itemMeaningful, hvisible, Bool.or_eq_true, Bool.or_eq_true]
    exact Or.imp_right hloop.meaningful_of
  · intro hcaptions
    rw [itemMeaningful, itemMeaningful, hvisible, hloop.captions hcaptions]

/-! ## Blocks -/

theorem kept_cases (context : SerializeContext) (block : Block) :
    kept context block = [] ∨ ∃ block', kept context block = [block'] := by
  rw [kept]
  cases (NormalizeFinalSubmitBlock context block).value with
  | none => exact .inl rfl
  | some block' => exact .inr ⟨block', rfl⟩

theorem normal_of_kept_eq (h : kept context block = [block']) : Normal context block block' :=
  normal (h ▸ List.mem_singleton_self block')

/-- What is in a block is stable as far as it is normalized. -/
structure PartsStable (context : SerializeContext) (block : Block) : Prop where
  blocks : block.data.kind.normalizesBlocks = true →
    ∀ block' ∈ block.blocks, Stable context block'
  items : block.data.kind.normalizesItems = true →
    ∀ item ∈ block.listItems, StableItem context item

namespace Normal

variable (h : Normal context block block')
include h

theorem kind : block'.data.kind = block.data.kind := by
  obtain ⟨text, rows, hdata⟩ := h.data
  rw [hdata]

theorem caption : block'.data.caption = block.data.caption := by
  obtain ⟨text, rows, hdata⟩ := h.data
  rw [hdata]

theorem visible : RichTextHasVisibleText block'.data.text =
    RichTextHasVisibleText block.data.text :=
  visible_eq_of_shown h.shown

theorem rowsVisible : block'.data.tableRows.any rowHasVisibleText =
    block.data.tableRows.any rowHasVisibleText := by
  obtain hrows | hrows := h.rows
  · rw [hrows]
  · have hagain := congrArg Normalized.hasRealContent (normalizeRows_again block.data.tableRows)
    rw [hrows]
    simpa only [normalizeRows_eq] using hagain

theorem own : BlockHasOwnMeaningfulContent context block'.data =
    BlockHasOwnMeaningfulContent context block.data := by
  have hvisible := h.visible
  obtain ⟨text, rows, hdata⟩ := h.data
  rw [hdata] at hvisible ⊢
  simp only [BlockHasOwnMeaningfulContent]
  dsimp only at hvisible
  rw [hvisible]

theorem ownReal_eq : ownReal context block'.data = ownReal context block.data := by
  obtain ⟨text, rows, hdata⟩ := h.data
  rw [ownReal, ownReal, h.kind, h.visible, h.rowsVisible, h.own, hdata]

theorem ownMeaningful_eq :
    ownMeaningful context block'.data = ownMeaningful context block.data := by
  rw [ownMeaningful, ownMeaningful, h.kind, h.visible, h.caption, h.ownReal_eq]

/-- The loop over the blocks. -/
theorem loop (hparts : PartsStable context block)
    (hkind : block.data.kind.normalizesBlocks = true) :
    StableLoop context block.blocks block'.blocks := by
  have hblocks := h.blocks
  rw [if_pos hkind] at hblocks
  exact stableLoop (hparts.blocks hkind) hblocks

theorem items_eq (hkind : block.data.kind.normalizesItems = true) :
    block'.listItems = block.listItems.map fun item =>
      (NormalizeFinalSubmitListItem context item).value := by
  rw [h.items, if_pos hkind]

theorem real_again (hparts : PartsStable context block) :
    real context block' = real context block := by
  rw [real_eq, real_eq, h.kind, h.ownReal_eq]
  congr 1
  · cases hkind : block.data.kind.normalizesBlocks with
    | false => rfl
    | true => rw [(h.loop hparts hkind).real_eq]
  · cases hkind : block.data.kind.normalizesItems with
    | false => rfl
    | true =>
        rw [h.items_eq hkind, List.any_map]
        congr 1
        exact any_congr fun item hitem => (hparts.items hkind item hitem).real_eq

theorem meaningful_again (hparts : PartsStable context block)
    (hcaptions : ∀ within, Within block within → CaptionKept context within) :
    meaningful context block' = meaningful context block := by
  rw [meaningful_eq, meaningful_eq, h.kind, h.ownMeaningful_eq]
  congr 1
  · cases hkind : block.data.kind.normalizesBlocks with
    | false => rfl
    | true =>
        rw [(h.loop hparts hkind).captions fun child hchild =>
          forall_within_child hcaptions (mem_children_of_blocks hkind hchild)]
  · cases hkind : block.data.kind.normalizesItems with
    | false => rfl
    | true =>
        rw [h.items_eq hkind, List.any_map]
        congr 1
        exact any_congr fun item hitem => (hparts.items hkind item hitem).captions
          fun child hchild =>
            forall_within_child hcaptions (mem_children_of_items hkind hitem hchild)

theorem meaningful_of_again (hparts : PartsStable context block)
    (hmeaningful : meaningful context block' = true) : meaningful context block = true := by
  rw [meaningful_eq, h.kind, h.ownMeaningful_eq, Bool.or_eq_true, Bool.or_eq_true,
    Bool.and_eq_true, Bool.and_eq_true] at hmeaningful
  rw [meaningful_eq, Bool.or_eq_true, Bool.or_eq_true, Bool.and_eq_true, Bool.and_eq_true]
  refine hmeaningful.imp (Or.imp_right fun hblocks => ?_) fun hitems => ?_
  · exact ⟨hblocks.1, (h.loop hparts hblocks.1).meaningful_of hblocks.2⟩
  · obtain ⟨hkind, hany⟩ := hitems
    rw [h.items_eq hkind, List.any_map, List.any_eq_true] at hany
    obtain ⟨item, hitem, hany⟩ := hany
    exact ⟨hkind, List.any_eq_true.mpr
      ⟨item, hitem, (hparts.items hkind item hitem).meaningful_of hany⟩⟩

theorem kept_again (hparts : PartsStable context block) : kept context block' = [block'] := by
  refine h.again (fun hkind => (h.loop hparts hkind).again) (fun hkind => ?_) (h.real_again hparts)
  rw [h.items_eq hkind, List.map_map]
  exact List.map_congr_left fun item hitem => (hparts.items hkind item hitem).again

/-- An empty paragraph was one before. -/
theorem trimmable (htrim : ParagraphHasTrimmableEdges block' = true) :
    ParagraphHasTrimmableEdges block = true ∧ block.data.kind = .Paragraph ∧
      StringIsEmpty block.data.text.text = true := by
  simp only [ParagraphHasTrimmableEdges, RichTextIsStructurallyEmpty, Bool.and_eq_true,
    decide_eq_true_eq] at htrim
  obtain ⟨⟨hkind, hanchor⟩, hblank, hpayload⟩ := htrim
  have hanchorId : block'.data.anchorId = block.data.anchorId := by
    obtain ⟨text, rows, hdata⟩ := h.data
    rw [hdata]
  rw [h.kind] at hkind
  rw [hanchorId] at hanchor
  rw [h.text (by rw [hkind]; decide)] at hblank hpayload
  refine ⟨?_, hkind, hblank⟩
  simp [ParagraphHasTrimmableEdges, RichTextIsStructurallyEmpty, hkind, hanchor, hblank, hpayload]

/-- What is trimmed held nothing. -/
theorem empty (hparts : PartsStable context block) (hplain : Plain block)
    (htrim : ParagraphHasTrimmableEdges block' = true) :
    real context block' = false ∧ meaningful context block' = false := by
  obtain ⟨htrim, hkind, hblank⟩ := h.trimmable htrim
  obtain ⟨-, hblocks, hitems, hrows⟩ := hplain htrim
  have hown : ownReal context block.data = false := by
    simp [ownReal, BlockHasOwnMeaningfulContent, BlockKind.treatment, RichTextHasVisibleText, hkind,
      hblank, hrows]
  have hreal : real context block = false := by
    rw [real_eq, hown, hblocks, hitems]
    simp
  have hmeaningful : meaningful context block = false := by
    rw [meaningful_eq, ownMeaningful, hkind, hblocks, hitems]
    simp [BlockKind.treatment, hown]
  refine ⟨(h.real_again hparts).trans hreal, Bool.eq_false_iff.mpr fun hagain => ?_⟩
  rw [h.meaningful_of_again hparts hagain] at hmeaningful
  cases hmeaningful

end Normal

/-- What is dropped held nothing real. -/
theorem real_of_dropped (hparts : PartsStable context block) (h : kept context block = []) :
    real context block = false := by
  obtain ⟨hown, hblocks, hitems⟩ := dropped h
  rw [real_eq, hown, Bool.false_or, Bool.or_eq_false_iff]
  constructor
  · cases hkind : block.data.kind.normalizesBlocks with
    | false => rfl
    | true => exact (stableLoop (hparts.blocks hkind) (hblocks hkind)).real_eq.symm
  · cases hkind : block.data.kind.normalizesItems with
    | false => rfl
    | true => rw [hitems hkind]; rfl

/-- Nor a caption, if none is lost. -/
theorem meaningful_of_dropped (hparts : PartsStable context block) (h : kept context block = [])
    (hcaptions : ∀ within, Within block within → CaptionKept context within) :
    meaningful context block = false := by
  obtain ⟨hown, hblocks, hitems⟩ := dropped h
  have hownMeaningful : ownMeaningful context block.data = false := by
    rw [ownMeaningful]
    split
    · next htreatment =>
      have hkind := BlockKind.treatment_eq_quote htreatment
      rw [ownReal, htreatment] at hown
      simp only at hown
      rw [hown, hcaptions block (.self block) hkind h, Bool.false_or]
    · exact hown
  rw [meaningful_eq, hownMeaningful, Bool.false_or, Bool.or_eq_false_iff]
  constructor
  · cases hkind : block.data.kind.normalizesBlocks with
    | false => rfl
    | true =>
        exact ((stableLoop (hparts.blocks hkind) (hblocks hkind)).captions fun child hchild =>
          forall_within_child hcaptions (mem_children_of_blocks hkind hchild)).symm
  · cases hkind : block.data.kind.normalizesItems with
    | false => rfl
    | true => rw [hitems hkind]; rfl

theorem stable_of_parts (hparts : PartsStable context block) (hplain : Plain block) :
    Stable context block := by
  constructor
  · exact fun block' hmem => (normal hmem).kept_again hparts
  · obtain hnil | ⟨block', hkept⟩ := kept_cases context block
    · rw [hnil, real_of_dropped hparts hnil, List.any_nil]
    · have hnormal := normal_of_kept_eq hkept
      rw [hkept, List.any_cons, List.any_nil, Bool.or_false, hnormal.real_again hparts]
  · intro hany
    obtain ⟨block', hmem, hmeaningful⟩ := List.any_eq_true.mp hany
    exact (normal hmem).meaningful_of_again hparts hmeaningful
  · intro hcaptions
    obtain hnil | ⟨block', hkept⟩ := kept_cases context block
    · rw [hnil, meaningful_of_dropped hparts hnil hcaptions, List.any_nil]
    · have hnormal := normal_of_kept_eq hkept
      rw [hkept, List.any_cons, List.any_nil, Bool.or_false,
        hnormal.meaningful_again hparts hcaptions]
  · exact fun block' hmem htrim => (normal hmem).empty hparts hplain htrim

/-- **Every block is stable** of which the empty paragraphs hold nothing. -/
theorem stable (hplain : ∀ within, Within block within → Plain within) : Stable context block := by
  induction block using Block.induction with
  | hmk data blocks listItems hblocks hitems =>
      refine stable_of_parts ⟨fun hkind child hchild => ?_, fun hkind item hitem => ?_⟩
        (hplain _ (.self _))
      · exact hblocks child hchild
          (forall_within_child hplain (mem_children_of_blocks hkind hchild))
      · exact stableItem fun child hchild => hitems item hitem child hchild
          (forall_within_child hplain (mem_children_of_items hkind hitem hchild))

end RichMessage

end Iv

end MessengerClient
