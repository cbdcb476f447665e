import MessengerClient.Lib.Intervals

/-!
# MessengerClient.MosaicLayout

`Mosaic::Layout::AbstractMosaicLayout`: items in rows, each as long as it needs to be for
`_bigWidth` and no longer than `kInlineItemsMaxPerRow` items.

The numbers of a layout and the widths of its items do not change, and how high an item
gets is up to the item.  The items know their positions.  A failed `Assert`, or an item that
is not in its row, is `none`.
-/

namespace MessengerClient

namespace Mosaic

def kInlineItemsMaxPerRow : Nat := 5

def kMatrixRowShift : Int := 40000

/-- `Layout::PositionToIndex`. -/
def positionToIndex (row column : Nat) : Int := row * kMatrixRowShift + column

structure Row (Item : Type) where
  maxWidth : Int := 0
  height : Int := 0
  items : List Item := []

/-- The numbers of a layout, and what it asks of its items. -/
structure Measures (Item : Type) where
  bigWidth : Int
  width : Int
  rightSkip : Int
  paddingLeft : Int
  paddingRight : Int
  inlineResultsMinWidth : Int
  maxWidth : Item → Int
  resizeGetHeight : Item → Int → Int
  /-- `std::sort` of indices by a key. -/
  sort : (key : Nat → Int) → SortBy key

structure AbstractMosaicLayout (Item : Type) where
  rows : List (Row Item) := []
  position : Item → Int := fun _ => 0

namespace AbstractMosaicLayout

variable {Item : Type} [DecidableEq Item] (m : Measures Item) (s : AbstractMosaicLayout Item)

def setPosition (item : Item) (position : Int) : AbstractMosaicLayout Item :=
  { s with position := Function.update s.position item position }

/-- The items leave the layout. -/
def dropItems (items : List Item) : AbstractMosaicLayout Item :=
  items.foldl (fun s item => s.setPosition item (-1)) s

/-- The height so far, the width that is available and the one that is desired. -/
def layoutItem (row : Row Item) (sizes : Int × Int × Int) (index : Nat) : Int × Int × Int :=
  match row.items[index]? with
  | none => sizes
  | some item =>
      let (height, availableWidth, desiredWidth) := sizes
      let w := if desiredWidth ≠ 0 then
          (m.maxWidth item * availableWidth).tdiv desiredWidth
        else m.maxWidth item
      let actualWidth := max w m.inlineResultsMinWidth
      let height := max height (m.resizeGetHeight item actualWidth)
      if desiredWidth ≠ 0 then
        let skip := if 0 < index ∧ m.rightSkip ≠ 0 then m.rightSkip else 0
        (height, availableWidth - actualWidth - skip, desiredWidth - m.maxWidth item - skip)
      else (height, availableWidth, desiredWidth)

/-- The items in the order of growing `maxWidth` get their widths. -/
def layoutRow (row : Row Item) (fullWidth : Int) : Option (Row Item) :=
  if row.items.length ≤ kInlineItemsMaxPerRow then
    let key (index : Nat) := (row.items[index]?.map m.maxWidth).getD 0
    let indices := (m.sort key).run (List.range row.items.length)
    let availableWidth := fullWidth - m.paddingLeft - m.paddingRight
    let sizes := indices.foldl (layoutItem m row) (0, availableWidth, row.maxWidth)
    some { row with height := sizes.1 }
  else none

/-! ## Adding items -/

/-- A layout with the row that is being filled. -/
structure Adding (Item : Type) where
  layout : AbstractMosaicLayout Item
  row : Row Item := {}
  sumWidth : Int := 0

/-- The row is put to the others where it is full, or big, or has to be. -/
def rowFinalize (force : Bool) (a : Adding Item) : Option (Adding Item × Bool) :=
  if a.row.items.isEmpty then some (a, false)
  else
    let full := a.row.items.length ≥ kInlineItemsMaxPerRow
    let big := a.sumWidth ≥ m.bigWidth
    if full ∨ big ∨ force then do
      let row ← layoutRow m { a.row with maxWidth := if full ∨ big then a.sumWidth else 0 } m.width
      return ({ layout := { a.layout with rows := a.layout.rows ++ [row] } }, true)
    else some (a, false)

def addItem (a : Adding Item) (item : Item) : Option (Adding Item) := do
  let layout := a.layout.setPosition item
    (positionToIndex a.layout.rows.length a.row.items.length)
  let (a, finalized) ← rowFinalize m false { a with layout }
  let layout := if finalized then
      a.layout.setPosition item (positionToIndex a.layout.rows.length 0)
    else a.layout
  let sumWidth := a.sumWidth + m.maxWidth item
  let sumWidth := if !a.row.items.isEmpty ∧ m.rightSkip ≠ 0 then sumWidth + m.rightSkip else sumWidth
  return { layout, row := { a.row with items := a.row.items ++ [item] }, sumWidth }

def addItems (items : List Item) : Option (AbstractMosaicLayout Item) := do
  let a ← items.foldlM (addItem m) { layout := s }
  let (a, _) ← rowFinalize m true a
  return a.layout

def clearRows (resultsDeleted : Bool) : AbstractMosaicLayout Item :=
  let s := if resultsDeleted then s else s.dropItems (s.rows.flatMap Row.items)
  { s with rows := [] }

/-! ## Items that stay -/

/-- The loop of `validateExistingRows` for that many more items: how far the items that are laid
out pass the check, and in which row and column the next one is. -/
def passed (checkItem : Item → Nat → Bool) : Nat → Nat → Nat → Nat → Option (Nat × Nat × Nat)
  | 0, until_, untilRow, untilCol => some (until_, untilRow, untilCol)
  | n + 1, until_, untilRow, untilCol =>
      if untilRow ≥ s.rows.length then some (until_, untilRow, untilCol)
      else do
        let row ← s.rows[untilRow]?
        let item ← row.items[untilCol]?
        if checkItem item until_ then some (until_, untilRow, untilCol)
        else if untilCol + 1 = row.items.length then
          passed checkItem n (until_ + 1) (untilRow + 1) 0
        else passed checkItem n (until_ + 1) untilRow (untilCol + 1)

/-- All items of a list are laid out: those after them leave. -/
def keepItems (untilRow untilCol : Nat) : Option (AbstractMosaicLayout Item) :=
  if untilRow = s.rows.length then some s
  else
    let rest := (s.rows.drop untilRow).flatMap Row.items
    let s := s.dropItems (rest.drop untilCol)
    if untilCol = 0 then some { s with rows := s.rows.take untilRow }
    else do
      let row ← s.rows[untilRow]?
      let items := row.items.take untilCol
      let row ← layoutRow m { row with items, maxWidth := (items.map m.maxWidth).sum } m.width
      return { s with rows := s.rows.take untilRow ++ [row] }

/-- The rows from one on leave. -/
def keepRows (untilRow : Nat) : AbstractMosaicLayout Item :=
  let s := s.dropItems ((s.rows.drop untilRow).flatMap Row.items)
  { s with rows := s.rows.take untilRow }

def validateExistingRows (checkItem : Item → Nat → Bool) (count : Nat) :
    Option (AbstractMosaicLayout Item × Nat) := do
  let (until_, untilRow, untilCol) ← s.passed checkItem count 0 0 0
  if until_ = count then
    let s ← s.keepItems m untilRow untilCol
    return (s, until_)
  else if untilRow ≠ 0 ∧ untilCol = 0 then
    -- the last row may be not full
    let row ← s.rows[untilRow - 1]?
    return (s.keepRows (untilRow - 1), until_ - row.items.length)
  else
    return (s.keepRows untilRow, until_ - untilCol)

/-- What the users of a layout do with a list of items. -/
def update (list : List Item) : Option (AbstractMosaicLayout Item) := do
  let (s, until_) ← s.validateExistingRows m (fun item i => list[i]? ≠ some item) list.length
  if until_ < list.length then s.addItems m (list.drop until_) else return s

/-- One list after another. -/
def run (lists : List (List Item)) : Option (AbstractMosaicLayout Item) :=
  lists.foldlM (fun s list => update m s list) {}

end AbstractMosaicLayout

end Mosaic

end MessengerClient
