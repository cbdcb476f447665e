import MessengerClient.Peers
import Mathlib

/-!
# MessengerClient.RichMessageSerializer

The normalization of a rich message before it is sent, of `iv/iv_rich_message_serializer.cpp`.

Blocks without content are dropped, empty paragraphs are trimmed at the edges of a list of blocks,
and the text of a list item or of a quote is trimmed together with the blocks after it, as one more
paragraph.  What is said of the content of blocks is passed up in two flags.

The answers for photos and documents are arguments.  Of a block there are the fields that are read
here.
-/

namespace MessengerClient

namespace Iv

namespace RichMessage

inductive BlockKind where
  | Unsupported
  | Heading
  | Paragraph
  | Footer
  | Thinking
  | AuthorDate
  | Code
  | Divider
  | Anchor
  | List
  | Quote
  | Photo
  | Video
  | Embed
  | EmbedPost
  | GroupedMedia
  | Channel
  | Audio
  | Math
  | Table
  | Details
  | RelatedArticles
  | Map
deriving DecidableEq, Repr

structure RichText where
  text : String := ""
  anchorId : String := ""
  anchorIds : List String := []
deriving DecidableEq, Repr

structure GroupedMediaItem where
  kind : BlockKind := .Unsupported
  photo : Nat := 0
  document : Nat := 0
  photoId : UInt64 := 0
  documentId : UInt64 := 0
deriving DecidableEq, Repr

/-- A `TableCell`, of which only the text matters. -/
structure TableCell where
  text : RichText
deriving DecidableEq, Repr

structure TableRow where
  cells : List TableCell := []
deriving DecidableEq, Repr

/-- All of a `Block` but its blocks and list items.  Pointers are numbers, and null is zero. -/
structure BlockData where
  kind : BlockKind := .Unsupported
  anchorId : String := ""
  text : RichText := {}
  caption : RichText := {}
  formula : String := ""
  date : Int := 0
  zoom : Int := 0
  photoId : UInt64 := 0
  documentId : UInt64 := 0
  pullquote : Bool := false
  photo : Nat := 0
  document : Nat := 0
  mediaItems : List GroupedMediaItem := []
  tableRows : List TableRow := []
deriving DecidableEq, Repr

/-- All of a `ListItem` but its blocks. -/
structure ItemData where
  anchorId : String := ""
  text : RichText := {}
deriving DecidableEq, Repr

mutual

inductive Block where
  | mk (data : BlockData) (blocks : List Block) (listItems : List ListItem)

inductive ListItem where
  | mk (data : ItemData) (blocks : List Block)

end

namespace Block

def data : Block → BlockData
  | mk data _ _ => data

def blocks : Block → List Block
  | mk _ blocks _ => blocks

def listItems : Block → List ListItem
  | mk _ _ listItems => listItems

end Block

namespace ListItem

def data : ListItem → ItemData
  | mk data _ => data

def blocks : ListItem → List Block
  | mk _ blocks => blocks

end ListItem

/-- That there is an answer for a photo or a document. -/
structure SerializeContext where
  ResolveInputPhoto (id : UInt64) (photo : Nat) : Bool
  ResolveInputDocument (id : UInt64) (document : Nat) : Bool

/-! ## Empty texts and paragraphs -/

/-- `trimmed().isEmpty()`. -/
def StringIsEmpty (text : String) : Bool := text.toList.all UserData.isSpace

def RichTextHasVisibleText (text : RichText) : Bool := !StringIsEmpty text.text

def RichTextHasAnchorPayload (text : RichText) : Bool :=
  text.anchorId ≠ "" || text.anchorIds ≠ []

def RichTextIsStructurallyEmpty (text : RichText) : Bool :=
  StringIsEmpty text.text && !RichTextHasAnchorPayload text

def ParagraphHasTrimmableEdges (block : Block) : Bool :=
  block.data.kind = .Paragraph && block.data.anchorId = "" &&
    RichTextIsStructurallyEmpty block.data.text

structure TrimEmptyParagraphEdgesRange where
  from_ : Nat := 0
  till : Nat := 0
deriving DecidableEq, Repr

/-- The first loop counts the paragraphs that can be trimmed at the front, the second those at the
back of what is left. -/
def FindTrimEmptyParagraphEdgesRange (blocks : List Block) : TrimEmptyParagraphEdgesRange :=
  let from_ := (blocks.takeWhile ParagraphHasTrimmableEdges).length
  ⟨from_, from_ + ((blocks.drop from_).rdropWhile ParagraphHasTrimmableEdges).length⟩

def TrimEmptyParagraphEdges (blocks : List Block) : List Block :=
  let range := FindTrimEmptyParagraphEdgesRange blocks
  (blocks.take range.till).drop range.from_

/-! ## Content -/

section Content

variable (context : SerializeContext)

def GroupedMediaItemHasMeaningfulContent (item : GroupedMediaItem) : Bool :=
  match item.kind with
  | .Photo => context.ResolveInputPhoto item.photoId item.photo
  | .Video => context.ResolveInputDocument item.documentId item.document
  | _ => false

def BlockHasOwnMeaningfulContent (block : BlockData) : Bool :=
  match block.kind with
  | .Heading | .Paragraph | .Footer | .Thinking | .Code => RichTextHasVisibleText block.text
  | .Quote => RichTextHasVisibleText block.text || RichTextHasVisibleText block.caption
  | .Photo => context.ResolveInputPhoto block.photoId block.photo
  | .Video | .Audio => context.ResolveInputDocument block.documentId block.document
  | .Math => !StringIsEmpty block.formula
  | .Table | .Details => RichTextHasVisibleText block.text
  | .GroupedMedia =>
    !block.mediaItems.isEmpty &&
      block.mediaItems.all (GroupedMediaItemHasMeaningfulContent context)
  | .Map => block.zoom > 0
  | .AuthorDate => RichTextHasVisibleText block.text || block.date ≠ 0
  | .Divider | .Anchor | .Unsupported | .List | .Embed | .EmbedPost | .Channel
  | .RelatedArticles => false

end Content

/-! ## Normalization -/

/-- `FinalSubmitNormalizationResult`. -/
structure Normalized (Value : Type) where
  value : Value
  hasMeaningfulContent : Bool := false
  hasRealContent : Bool := false
deriving DecidableEq, Repr

namespace Normalized

variable {Value Value' Value'' : Type}

/-- The flags of what comes first or of what comes after it. -/
def push (f : Value → Value' → Value'') (first : Normalized Value) (rest : Normalized Value') :
    Normalized Value'' :=
  ⟨f first.value rest.value, first.hasMeaningfulContent || rest.hasMeaningfulContent,
    first.hasRealContent || rest.hasRealContent⟩

end Normalized

def NormalizeFinalSubmitTableCell (cell : TableCell) : Normalized TableCell :=
  ⟨cell, RichTextHasVisibleText cell.text, RichTextHasVisibleText cell.text⟩

def NormalizeFinalSubmitTableRow (row : TableRow) : Normalized (Option TableRow) :=
  if row.cells = [] then ⟨none, false, false⟩
  else
    let cells := row.cells.foldr (fun cell rest =>
      (NormalizeFinalSubmitTableCell cell).push List.cons rest) ⟨[], false, false⟩
    ⟨some ⟨cells.value⟩, cells.hasMeaningfulContent, cells.hasRealContent⟩

/-- The loop over the rows of a table. -/
def normalizeRows (rows : List TableRow) : Normalized (List TableRow) :=
  rows.foldr (fun row rest => (NormalizeFinalSubmitTableRow row).push
    (fun row rows => row.toList ++ rows) rest) ⟨[], false, false⟩

structure HybridSurface where
  text : RichText := {}
  anchorId : String := ""
  blocks : List Block := []

/-- The paragraph that stands for the text of a list item or of a quote. -/
def paragraph (text : RichText) (anchorId : String) : Block :=
  .mk { kind := .Paragraph, text := text, anchorId := anchorId } [] []

/-- `normalizedBlocks` are those of the item or the quote, without their edges trimmed. -/
def NormalizeFinalSubmitHybridSurface (text : RichText) (anchorId : String)
    (normalizedBlocks : Normalized (List Block)) : Normalized HybridSurface :=
  let combined := paragraph text anchorId :: normalizedBlocks.value
  let range := FindTrimEmptyParagraphEdgesRange combined
  let first : Normalized HybridSurface :=
    if range.from_ = 0 ∧ range.till > 0 then
      ⟨⟨text, anchorId, []⟩, RichTextHasVisibleText text, RichTextHasVisibleText text⟩
    else ⟨{}, false, false⟩
  let blocks := (combined.take range.till).drop (max range.from_ 1)
  first.push (fun surface _ => { surface with blocks := blocks }) normalizedBlocks

namespace Normalized

/-- With `trimParagraphEdges`. -/
def trimmed (blocks : Normalized (List Block)) : Normalized (List Block) :=
  { blocks with value := TrimEmptyParagraphEdges blocks.value }

end Normalized

/-- `normalizedBlocks` are those of the item, without their edges trimmed. -/
def normalizeItem (data : ItemData) (blocks : List Block)
    (normalizedBlocks : Normalized (List Block)) : Normalized ListItem :=
  if blocks = [] then
    ⟨.mk data [], RichTextHasVisibleText data.text, RichTextHasVisibleText data.text⟩
  else
    let surface := NormalizeFinalSubmitHybridSurface data.text data.anchorId normalizedBlocks
    ⟨.mk { data with text := surface.value.text, anchorId := surface.value.anchorId }
      surface.value.blocks, surface.hasMeaningfulContent, surface.hasRealContent⟩

/-- The text and the blocks that a quote is left with. -/
def quoteContent (data : BlockData) (blocks : List Block)
    (normalizedBlocks : Normalized (List Block)) : Normalized (RichText × List Block) :=
  if blocks ≠ [] ∧ data.pullquote = false then
    let surface := NormalizeFinalSubmitHybridSurface data.text "" normalizedBlocks
    ⟨(surface.value.text, surface.value.blocks), surface.hasMeaningfulContent,
      surface.hasRealContent⟩
  else if blocks ≠ [] then
    let blocks := normalizedBlocks.trimmed
    ⟨(data.text, blocks.value), blocks.hasMeaningfulContent, blocks.hasRealContent⟩
  else
    ⟨(data.text, []), false, false⟩

section Kinds

variable (context : SerializeContext) (data : BlockData) (blocks : List Block)
  (listItems : List ListItem) (normalizedBlocks : Normalized (List Block))
  (normalizedItems : Normalized (List ListItem))

def normalizeQuote : Normalized (Option Block) :=
  let content := quoteContent data blocks normalizedBlocks
  let meaningful := content.hasMeaningfulContent || RichTextHasVisibleText content.value.1 ||
    RichTextHasVisibleText data.caption
  let real := content.hasRealContent || RichTextHasVisibleText content.value.1
  ⟨if content.value.2 = [] ∧ real = false then none
    else some (.mk { data with text := content.value.1 } content.value.2 listItems),
    meaningful, real⟩

def normalizeList : Normalized (Option Block) :=
  ⟨if normalizedItems.value = [] then none else some (.mk data blocks normalizedItems.value),
    normalizedItems.hasMeaningfulContent, normalizedItems.hasRealContent⟩

def normalizeTable : Normalized (Option Block) :=
  let rows := normalizeRows data.tableRows
  ⟨if rows.hasMeaningfulContent = false then none
    else some (.mk { data with tableRows := rows.value } blocks listItems),
    rows.hasMeaningfulContent, rows.hasRealContent⟩

def normalizeDetails : Normalized (Option Block) :=
  let content := normalizedBlocks.trimmed
  ⟨if content.value = [] then none else some (.mk data content.value listItems),
    content.hasMeaningfulContent, content.hasRealContent⟩

/-- What all other kinds have in common.  Where there are no blocks, items or rows, there are none
after it. -/
def normalizeOther : Normalized (Option Block) :=
  let content := normalizedBlocks.trimmed
  let rows := normalizeRows data.tableRows
  let normalized := { data with tableRows := rows.value }
  let own := BlockHasOwnMeaningfulContent context normalized
  ⟨some (.mk normalized content.value normalizedItems.value),
    content.hasMeaningfulContent || normalizedItems.hasMeaningfulContent ||
      rows.hasMeaningfulContent || own,
    content.hasRealContent || normalizedItems.hasRealContent || rows.hasRealContent || own⟩

/-- `NormalizeFinalSubmitBlock`, with what its blocks and its list items are normalized to. -/
def normalizeKind : Normalized (Option Block) :=
  match data.kind with
  | .Heading | .Footer | .Code | .Thinking =>
    if RichTextHasVisibleText data.text = false then ⟨none, false, false⟩
    else ⟨some (.mk data blocks listItems), true, true⟩
  | .Math =>
    if StringIsEmpty data.formula then ⟨none, false, false⟩
    else ⟨some (.mk data blocks listItems), true, true⟩
  | .Quote => normalizeQuote data blocks listItems normalizedBlocks
  | .List => normalizeList data blocks normalizedItems
  | .Table => normalizeTable data blocks listItems
  | .Details => normalizeDetails data listItems normalizedBlocks
  | _ => normalizeOther context data normalizedBlocks normalizedItems

end Kinds

section Trees

variable (context : SerializeContext)

mutual

def NormalizeFinalSubmitBlock : Block → Normalized (Option Block)
  | .mk data blocks listItems => normalizeKind context data blocks listItems
      (normalizeEach blocks) (normalizeItems listItems)

def NormalizeFinalSubmitListItem : ListItem → Normalized ListItem
  | .mk data blocks => normalizeItem data blocks (normalizeEach blocks)

/-- The loop of `NormalizeFinalSubmitBlocks`, all of it without `trimParagraphEdges`. -/
def normalizeEach : List Block → Normalized (List Block)
  | [] => ⟨[], false, false⟩
  | block :: blocks => (NormalizeFinalSubmitBlock block).push
      (fun block blocks => block.toList ++ blocks) (normalizeEach blocks)

/-- The loop over the items of a list. -/
def normalizeItems : List ListItem → Normalized (List ListItem)
  | [] => ⟨[], false, false⟩
  | item :: items => (NormalizeFinalSubmitListItem item).push List.cons (normalizeItems items)

end

end Trees

end RichMessage

end Iv

end MessengerClient
