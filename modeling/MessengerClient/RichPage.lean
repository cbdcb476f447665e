import Mathlib

/-!
# MessengerClient.RichPage

The width of a table of `iv/iv_rich_page.cpp`: the cells are placed one after another in a grid of
limited width, and what does not fit makes the table as wide as the limit.

What the width is meant to be is said without a grid and without a limit: each cell takes the first
column of its row where its slots overlap none of those before it (`tableWidth`).  The limited
search is no other until a cell reaches over the limit, and then the table is wider than that
(`effectiveTableColumns_eq`).

Rows and columns are natural numbers, so that the guards against negative ones are left out.
-/

namespace MessengerClient

namespace Iv

namespace RichPage

structure TableCell where
  colspan : Int := 1
  rowspan : Int := 1
deriving DecidableEq, Repr

structure TableRow where
  cells : List TableCell
deriving DecidableEq, Repr

abbrev TableOccupancyGrid : Type := List (List Bool)

def normalizeTableSpan (span : Int) : Nat := (max span 1).toNat

def clampTableRowspan (rawRowspan : Int) (row rowCount : Nat) : Nat :=
  if row ≥ rowCount then 0 else min (normalizeTableSpan rawRowspan) (rowCount - row)

def clampTableColspan (rawColspan : Int) (column maxColumns : Nat) : Nat :=
  if column ≥ maxColumns then 0 else min (normalizeTableSpan rawColspan) (maxColumns - column)

/-- The loops over the rows and over the columns of a row. -/
def canOccupyTableSlots (occupancy : TableOccupancyGrid) (row column rowspan colspan : Nat) :
    Bool :=
  if rowspan = 0 ∨ colspan = 0 ∨ row ≥ occupancy.length then false
  else
    ((occupancy.drop row).take rowspan).all fun occupied =>
      ((occupied.drop column).take colspan).all (! ·)

/-- The test in the loop of `FirstAvailableTableColumn`. -/
def isAvailableColumn (occupancy : TableOccupancyGrid) (row rowspan colspan maxColumns : Nat)
    (column : Nat) : Bool :=
  let effectiveColspan := clampTableColspan colspan column maxColumns
  effectiveColspan > 0 && canOccupyTableSlots occupancy row column rowspan effectiveColspan

def firstAvailableTableColumn (occupancy : TableOccupancyGrid)
    (row rowspan colspan maxColumns : Nat) : Option Nat :=
  if row ≥ occupancy.length ∨ rowspan = 0 ∨ colspan = 0 ∨ maxColumns = 0 then none
  else
    (List.range maxColumns).find? (isAvailableColumn occupancy row rowspan colspan maxColumns)

/-- Slots of a table: `rowspan` rows from `row` on, and `colspan` columns from `column` on. -/
structure TableSlots where
  row : Nat
  column : Nat
  rowspan : Nat
  colspan : Nat
deriving DecidableEq, Repr

/-- A row that is long enough, with the columns of the slots set. -/
def markTableRow (occupied : List Bool) (column colspan : Nat) : List Bool :=
  (occupied ++ List.replicate (column + colspan - occupied.length) false).mapIdx fun i set =>
    set || (column ≤ i && i < column + colspan)

def markTableSlots (occupancy : TableOccupancyGrid) (slots : TableSlots) : TableOccupancyGrid :=
  if slots.rowspan = 0 ∨ slots.colspan = 0 ∨ slots.row ≥ occupancy.length then occupancy
  else
    occupancy.mapIdx fun i occupied =>
      if slots.row ≤ i ∧ i < slots.row + slots.rowspan then
        markTableRow occupied slots.column slots.colspan
      else occupied

def tableColumnCount (occupancy : TableOccupancyGrid) : Nat :=
  occupancy.foldl (fun result row => max result row.length) 0

/-- The cells in the order of the loops, each with its row. -/
def tableCells (rows : List TableRow) : List (Nat × TableCell) :=
  rows.zipIdx.flatMap fun row => row.1.cells.map fun cell => (row.2, cell)

/-- The loops of `EffectiveTableColumns`: the answer, and the slots that were marked. -/
def measureTableCells (rowCount maxColumns : Nat) :
    List (Nat × TableCell) → TableOccupancyGrid → List TableSlots → Nat × List TableSlots
  | [], occupancy, marked => (tableColumnCount occupancy, marked)
  | (rowIndex, cell) :: cells, occupancy, marked =>
    let normalizedColspan := normalizeTableSpan cell.colspan
    let rowspan := clampTableRowspan cell.rowspan rowIndex rowCount
    if rowspan = 0 then measureTableCells rowCount maxColumns cells occupancy marked
    else
      match firstAvailableTableColumn occupancy rowIndex rowspan normalizedColspan maxColumns with
      | none => (maxColumns, marked)
      | some column =>
        let colspan := clampTableColspan normalizedColspan column maxColumns
        if colspan ≠ normalizedColspan then (maxColumns, marked)
        else
          let slots := { row := rowIndex, column, rowspan, colspan }
          measureTableCells rowCount maxColumns cells (markTableSlots occupancy slots)
            (marked ++ [slots])

def measureTable (rows : List TableRow) (maxColumns : Nat) : Nat × List TableSlots :=
  if rows = [] ∨ maxColumns = 0 then (0, [])
  else
    measureTableCells rows.length maxColumns (tableCells rows) (List.replicate rows.length []) []

def effectiveTableColumns (rows : List TableRow) (maxColumns : Nat) : Nat :=
  (measureTable rows maxColumns).1

/-! ## Tables without a limit -/

namespace TableSlots

def Covers (s : TableSlots) (row column : Nat) : Prop :=
  (s.row ≤ row ∧ row < s.row + s.rowspan) ∧ s.column ≤ column ∧ column < s.column + s.colspan

def Overlap (s t : TableSlots) : Prop := ∃ row column, s.Covers row column ∧ t.Covers row column

/-- Only the rows of the table. -/
def clamp (rowCount : Nat) (s : TableSlots) : TableSlots :=
  { s with rowspan := min s.rowspan (rowCount - s.row) }

end TableSlots

/-- The slots of the whole cell at a column. -/
def TableCell.slots (cell : TableCell) (row column : Nat) : TableSlots where
  row := row
  column := column
  rowspan := normalizeTableSpan cell.rowspan
  colspan := normalizeTableSpan cell.colspan

/-- The first column where the cell overlaps none of those that are placed. -/
noncomputable def firstColumn (placed : List TableSlots) (row : Nat) (cell : TableCell) : Nat :=
  sInf {column | ∀ s ∈ placed, ¬(cell.slots row column).Overlap s}

noncomputable def place : List TableSlots → List (Nat × TableCell) → List TableSlots
  | placed, [] => placed
  | placed, (row, cell) :: cells =>
    place (placed ++ [cell.slots row (firstColumn placed row cell)]) cells

def width (placed : List TableSlots) : Nat :=
  placed.foldl (fun width s => max width (s.column + s.colspan)) 0

/-- **The width of a table** that is not limited. -/
noncomputable def tableWidth (rows : List TableRow) : Nat := width (place [] (tableCells rows))

variable {placed : List TableSlots} {s t : TableSlots} {cell : TableCell} {n row column : Nat}
  {cells : List (Nat × TableCell)}

theorem foldl_max_le_iff {α : Type} (f : α → Nat) (l : List α) (start b : Nat) :
    l.foldl (fun n x => max n (f x)) start ≤ b ↔ start ≤ b ∧ ∀ x ∈ l, f x ≤ b := by
  induction l generalizing start with
  | nil => simp
  | cons x l ih => simp [ih, and_assoc]

theorem width_le_iff {b : Nat} : width placed ≤ b ↔ ∀ s ∈ placed, s.column + s.colspan ≤ b := by
  simp [width, foldl_max_le_iff]

theorem le_width (h : s ∈ placed) : s.column + s.colspan ≤ width placed :=
  width_le_iff.mp le_rfl s h

theorem width_concat : width (placed ++ [s]) = max (width placed) (s.column + s.colspan) := by
  simp [width, List.foldl_append]

theorem width_le_place : width placed ≤ width (place placed cells) := by
  induction cells generalizing placed with
  | nil => exact le_rfl
  | cons cell cells ih =>
    refine le_trans ?_ ih
    rw [width_concat]
    exact le_max_left _ _

theorem one_le_normalize (span : Int) : 1 ≤ normalizeTableSpan span := by
  rw [normalizeTableSpan]
  omega

@[simp] theorem normalize_normalize (span : Int) :
    normalizeTableSpan (normalizeTableSpan span) = normalizeTableSpan span := by
  simp only [normalizeTableSpan]
  omega

/-- Behind all that is placed a cell overlaps nothing, so that there is a first column. -/
theorem not_overlap_firstColumn (h : s ∈ placed) :
    ¬(cell.slots row (firstColumn placed row cell)).Overlap s := by
  have hbehind : width placed ∈ {column | ∀ s ∈ placed, ¬(cell.slots row column).Overlap s} := by
    rintro s hs ⟨row, column, hcell, hcovers⟩
    have hright := le_width hs
    have hleft := hcell.2.1
    have hlt := hcovers.2.2
    simp only [TableCell.slots] at hleft
    omega
  exact Nat.sInf_mem ⟨_, hbehind⟩ s h

theorem exists_overlap_of_lt (h : column < firstColumn placed row cell) :
    ∃ s ∈ placed, (cell.slots row column).Overlap s := by
  have hout := Nat.notMem_of_lt_sInf h
  simpa using hout

theorem firstColumn_eq (hfree : ∀ s ∈ placed, ¬(cell.slots row column).Overlap s)
    (hbefore : ∀ column' < column, ∃ s ∈ placed, (cell.slots row column').Overlap s) :
    firstColumn placed row cell = column := by
  refine le_antisymm (Nat.sInf_le hfree) ?_
  by_contra hlt
  obtain ⟨s, hs, hoverlap⟩ := hbefore _ (not_le.mp hlt)
  exact not_overlap_firstColumn hs hoverlap

/-- Slots that begin in a table overlap in one of its rows. -/
theorem overlap_iff (hs : s.row < n) (ht : t.row < n) :
    s.Overlap t ↔ ∃ row column, row < n ∧ s.Covers row column ∧ t.Covers row column := by
  constructor
  · rintro ⟨row, column, hcovers, hcovers'⟩
    refine ⟨max s.row t.row, column, max_lt hs ht, ?_, ?_⟩
    · simp only [TableSlots.Covers] at *
      omega
    · simp only [TableSlots.Covers] at *
      omega
  · rintro ⟨row, column, -, hcovers, hcovers'⟩
    exact ⟨row, column, hcovers, hcovers'⟩

/-! ## The grid -/

def occupied (occupancy : TableOccupancyGrid) (row column : Nat) : Bool :=
  ((occupancy[row]?.getD [])[column]?).getD false

variable {occupancy : TableOccupancyGrid} {maxColumns : Nat}

theorem count_le_iff {b : Nat} :
    tableColumnCount occupancy ≤ b ↔ ∀ row ∈ occupancy, row.length ≤ b := by
  simp [tableColumnCount, foldl_max_le_iff]

theorem length_markTableRow (occupied : List Bool) (column colspan : Nat) :
    (markTableRow occupied column colspan).length = max occupied.length (column + colspan) := by
  simp only [markTableRow, List.length_mapIdx, List.length_append, List.length_replicate]
  omega

theorem getElem?_markTableRow (set : List Bool) (column colspan i : Nat) :
    ((markTableRow set column colspan)[i]?).getD false =
      ((set[i]?).getD false || (column ≤ i && i < column + colspan)) := by
  rw [markTableRow, List.getElem?_mapIdx]
  by_cases hi : i < set.length
  · simp [List.getElem?_append_left, hi]
  · rw [List.getElem?_append_right (not_lt.mp hi), List.getElem?_eq_none (not_lt.mp hi),
      List.getElem?_replicate]
    by_cases hfits : i - set.length < column + colspan - set.length
    · simp [hfits]
    · rw [if_neg hfits]
      simp
      omega

/-- The rows after slots are marked. -/
theorem getElem?_mark (hrow : s.row < occupancy.length) (hrows : 0 < s.rowspan)
    (hcolumns : 0 < s.colspan) (row : Nat) : (markTableSlots occupancy s)[row]? =
      occupancy[row]?.map fun set =>
        if s.row ≤ row ∧ row < s.row + s.rowspan then markTableRow set s.column s.colspan
        else set := by
  rw [markTableSlots, if_neg (by omega), List.getElem?_mapIdx]

/-- **Marking** sets the slots that are in the table. -/
theorem occupied_mark (hrow : s.row < occupancy.length) (hrows : 0 < s.rowspan)
    (hcolumns : 0 < s.colspan) :
    occupied (markTableSlots occupancy s) row column ↔
      occupied occupancy row column ∨ row < occupancy.length ∧ s.Covers row column := by
  rw [occupied, occupied, getElem?_mark hrow hrows hcolumns, TableSlots.Covers]
  by_cases hlt : row < occupancy.length
  · rw [List.getElem?_eq_getElem hlt]
    by_cases hin : s.row ≤ row ∧ row < s.row + s.rowspan
    · simp [hin, hlt, getElem?_markTableRow]
    · rw [Option.map_some, if_neg hin]
      simp [hin]
  · simp [hlt]

theorem count_mark (hrow : s.row < occupancy.length) (hrows : 0 < s.rowspan)
    (hcolumns : 0 < s.colspan) : tableColumnCount (markTableSlots occupancy s) =
      max (tableColumnCount occupancy) (s.column + s.colspan) := by
  refine eq_of_forall_ge_iff fun b => ?_
  rw [max_le_iff, count_le_iff, count_le_iff]
  constructor
  · intro h
    have hmarked : ∀ i (set : List Bool), occupancy[i]? = some set → set.length ≤ b ∧
        (i = s.row → s.column + s.colspan ≤ b) := by
      intro i set hset
      have hget := getElem?_mark hrow hrows hcolumns i
      rw [hset, Option.map_some] at hget
      have hle := h _ (List.mem_of_getElem? hget)
      split at hle
      · rw [length_markTableRow] at hle
        omega
      · refine ⟨hle, fun hi => ?_⟩
        omega
    refine ⟨fun set hset => ?_, (hmarked s.row _ (List.getElem?_eq_getElem hrow)).2 rfl⟩
    obtain ⟨i, hi⟩ := List.mem_iff_getElem?.mp hset
    exact (hmarked i set hi).1
  · rintro ⟨h, hright⟩ set hset
    obtain ⟨i, hi⟩ := List.mem_iff_getElem?.mp hset
    rw [getElem?_mark hrow hrows hcolumns, Option.map_eq_some_iff] at hi
    obtain ⟨before, hbefore, rfl⟩ := hi
    have hle := h before (List.mem_of_getElem? hbefore)
    split
    · rw [length_markTableRow]
      exact max_le hle hright
    · exact hle

/-- What holds of a slice, by index. -/
theorem all_slice {α : Type} (p : α → Bool) (l : List α) (start count : Nat) :
    ((l.drop start).take count).all p ↔
      ∀ i x, start ≤ i ∧ i < start + count → l[i]? = some x → p x := by
  simp only [List.all_eq_true, List.mem_iff_getElem?, List.getElem?_take, List.getElem?_drop]
  constructor
  · intro h i x hi hx
    refine h x ⟨i - start, ?_⟩
    rw [if_pos (by omega), Nat.add_sub_cancel' hi.1, hx]
  · rintro h x ⟨i, hi⟩
    split at hi
    · exact h (start + i) x (by omega) hi
    · cases hi

/-- **Slots are free** exactly if nothing of them is occupied. -/
theorem canOccupy_iff {rowspan colspan : Nat} (hrow : row < occupancy.length)
    (hrows : 0 < rowspan) (hcolumns : 0 < colspan) :
    canOccupyTableSlots occupancy row column rowspan colspan ↔
      ∀ row' column', TableSlots.Covers ⟨row, column, rowspan, colspan⟩ row' column' →
        ¬occupied occupancy row' column' := by
  rw [canOccupyTableSlots, if_neg (by omega)]
  simp only [all_slice, TableSlots.Covers, and_imp, occupied]
  constructor
  · intro h row' column' hrow' hrowspan hcolumn' hcolspan
    cases hset : occupancy[row']? with
    | none => simp
    | some set =>
      cases hslot : set[column']? with
      | none => simp [hslot]
      | some slot =>
        have hfree := h row' set hrow' hrowspan hset column' slot hcolumn' hcolspan hslot
        simpa [hslot] using hfree
  · intro h row' set hrow' hrowspan hset column' slot hcolumn' hcolspan hslot
    have hfree := h row' column' hrow' hrowspan hcolumn' hcolspan
    simpa [hset, hslot] using hfree

/-! ## The limited search -/

/-- The grid of the placed slots. -/
structure Marks (n : Nat) (occupancy : TableOccupancyGrid) (placed : List TableSlots) : Prop where
  length : occupancy.length = n
  rows : ∀ s ∈ placed, s.row < n
  occupied : ∀ row column, occupied occupancy row column ↔
    row < n ∧ ∃ s ∈ placed, s.Covers row column
  count : tableColumnCount occupancy = width placed

theorem marks_nil (n : Nat) : Marks n (List.replicate n []) [] := by
  refine ⟨List.length_replicate, by simp, fun row column => ?_, ?_⟩
  · rw [RichPage.occupied, List.getElem?_replicate]
    split <;> simp
  · have hzero : tableColumnCount (List.replicate n []) ≤ 0 :=
      count_le_iff.mpr (by simp +contextual)
    exact Nat.le_zero.mp hzero

/-- Only rows of the table count. -/
theorem covers_clamp (hrow : row < n) : (s.clamp n).Covers row column ↔ s.Covers row column := by
  simp only [TableSlots.clamp, TableSlots.Covers]
  omega

theorem clamp_pos (hrow : s.row < n) (hrows : 0 < s.rowspan) : 0 < (s.clamp n).rowspan := by
  simp only [TableSlots.clamp]
  omega

theorem Marks.mark (h : Marks n occupancy placed) (hrow : s.row < n) (hrows : 0 < s.rowspan)
    (hcolumns : 0 < s.colspan) :
    Marks n (markTableSlots occupancy (s.clamp n)) (placed ++ [s]) := by
  have hrow' : (s.clamp n).row < occupancy.length := by
    rw [h.length]
    exact hrow
  have hrows' := clamp_pos hrow hrows
  refine ⟨?_, ?_, fun row column => ?_, ?_⟩
  · rw [markTableSlots]
    split
    · exact h.length
    · rw [List.length_mapIdx, h.length]
  · simp only [List.mem_append, List.mem_singleton]
    rintro t (ht | rfl)
    · exact h.rows t ht
    · exact hrow
  · rw [occupied_mark hrow' hrows' hcolumns, h.occupied, h.length, ← and_or_left]
    simp only [List.mem_append, List.mem_singleton, or_and_right, exists_or, exists_eq_left]
    refine and_congr_right fun hlt => ?_
    rw [covers_clamp hlt]
  · rw [count_mark hrow' hrows' hcolumns, h.count, width_concat]
    rfl

/-- **The grid is free** for a cell where the whole cell overlaps nothing. -/
theorem Marks.canOccupy_iff (h : Marks n occupancy placed) (hrow : s.row < n)
    (hrows : 0 < s.rowspan) (hcolumns : 0 < s.colspan) :
    canOccupyTableSlots occupancy s.row s.column (s.clamp n).rowspan s.colspan ↔
      ∀ t ∈ placed, ¬s.Overlap t := by
  rw [RichPage.canOccupy_iff (h.length.symm ▸ hrow) (clamp_pos hrow hrows) hcolumns]
  simp only [h.occupied]
  constructor
  · intro hfree t ht hoverlap
    obtain ⟨row, column, hlt, hcovers, hcovers'⟩ := (overlap_iff hrow (h.rows t ht)).mp hoverlap
    exact hfree row column ((covers_clamp hlt).mpr hcovers) ⟨hlt, t, ht, hcovers'⟩
  · rintro hfree row column hcovers ⟨hlt, t, ht, hcovers'⟩
    exact hfree t ht ⟨row, column, (covers_clamp hlt).mp hcovers, hcovers'⟩

theorem clampTableRowspan_eq (column : Nat) (hrow : row < n) :
    clampTableRowspan cell.rowspan row n = ((cell.slots row column).clamp n).rowspan := by
  rw [clampTableRowspan, if_neg (by omega)]
  rfl

theorem clampTableColspan_eq (hcolumn : column < maxColumns) :
    clampTableColspan (normalizeTableSpan cell.colspan) column maxColumns =
      min (normalizeTableSpan cell.colspan) (maxColumns - column) := by
  rw [clampTableColspan, if_neg (by omega), normalize_normalize]

/-- The limited search at a column that the whole cell does not reach over. -/
def Fits (occupancy : TableOccupancyGrid) (n row column : Nat) (cell : TableCell) : Prop :=
  canOccupyTableSlots occupancy row column (clampTableRowspan cell.rowspan row n)
    (normalizeTableSpan cell.colspan)

theorem Marks.fits_iff (h : Marks n occupancy placed) (hrow : row < n) :
    Fits occupancy n row column cell ↔ ∀ t ∈ placed, ¬(cell.slots row column).Overlap t := by
  have hslots := h.canOccupy_iff (s := cell.slots row column) hrow (one_le_normalize _)
    (one_le_normalize _)
  rwa [← clampTableRowspan_eq column hrow] at hslots

/-- Where the cell fits nowhere, it reaches over the limit. -/
theorem Marks.lt_of_not_fits (h : Marks n occupancy placed) (hrow : row < n)
    (hno : ∀ column, column + normalizeTableSpan cell.colspan ≤ maxColumns →
      ¬Fits occupancy n row column cell) :
    maxColumns < firstColumn placed row cell + normalizeTableSpan cell.colspan := by
  by_contra hle
  refine hno _ (not_lt.mp hle) ?_
  rw [h.fits_iff hrow]
  exact fun t ht => not_overlap_firstColumn ht

/-- The test of the search, where the whole cell is in the limit. -/
theorem available_iff (hcolumn : column + normalizeTableSpan cell.colspan ≤ maxColumns) :
    isAvailableColumn occupancy row (clampTableRowspan cell.rowspan row n)
      (normalizeTableSpan cell.colspan) maxColumns column ↔ Fits occupancy n row column cell := by
  have hpos := one_le_normalize cell.colspan
  rw [isAvailableColumn, clampTableColspan_eq (by omega), min_eq_left (by omega), Fits]
  simp [Nat.lt_of_lt_of_le Nat.zero_lt_one hpos]

/-- **The limited search** finds the first column of the whole cell, if that is in the limit.  A
cell that is cut off at the limit, or that is not placed, reaches over it. -/
theorem Marks.firstAvailable (h : Marks n occupancy placed) (hrow : row < n)
    (hmax : 0 < maxColumns) :
    firstAvailableTableColumn occupancy row (clampTableRowspan cell.rowspan row n)
        (normalizeTableSpan cell.colspan) maxColumns =
      some (firstColumn placed row cell) ∧
        firstColumn placed row cell + normalizeTableSpan cell.colspan ≤ maxColumns ∨
    maxColumns < firstColumn placed row cell + normalizeTableSpan cell.colspan ∧
      ∀ column ∈ firstAvailableTableColumn occupancy row (clampTableRowspan cell.rowspan row n)
        (normalizeTableSpan cell.colspan) maxColumns,
        clampTableColspan (normalizeTableSpan cell.colspan) column maxColumns ≠
          normalizeTableSpan cell.colspan := by
  have hcolumns := one_le_normalize cell.colspan
  have hrows : 0 < clampTableRowspan cell.rowspan row n := by
    rw [clampTableRowspan_eq 0 hrow]
    exact clamp_pos hrow (one_le_normalize _)
  have hlength : ¬(row ≥ occupancy.length ∨ clampTableRowspan cell.rowspan row n = 0 ∨
      normalizeTableSpan cell.colspan = 0 ∨ maxColumns = 0) := by
    rw [h.length]
    omega
  rw [firstAvailableTableColumn, if_neg hlength]
  cases hfind : (List.range maxColumns).find? (isAvailableColumn occupancy row
      (clampTableRowspan cell.rowspan row n) (normalizeTableSpan cell.colspan) maxColumns) with
  | none =>
    refine .inr ⟨h.lt_of_not_fits hrow fun column hcolumn hfits => ?_, by simp⟩
    have htest := List.find?_eq_none.mp hfind column (List.mem_range.mpr (by omega))
    exact htest ((available_iff hcolumn).mpr hfits)
  | some column =>
    obtain ⟨htest, hrange, hbefore⟩ := List.find?_range_eq_some.mp hfind
    rw [List.mem_range] at hrange
    have hnot : ∀ column' < column,
        column' + normalizeTableSpan cell.colspan ≤ maxColumns →
        ¬Fits occupancy n row column' cell := by
      intro column' hlt hcolumn hfits
      have hfalse := hbefore column' hlt
      rw [(available_iff hcolumn).mpr hfits] at hfalse
      cases hfalse
    by_cases hcolumn : column + normalizeTableSpan cell.colspan ≤ maxColumns
    · have hfree := (h.fits_iff hrow).mp ((available_iff hcolumn).mp htest)
      have hfirst : firstColumn placed row cell = column := by
        refine firstColumn_eq hfree fun column' hlt => ?_
        have hoverlap := mt (h.fits_iff hrow).mpr (hnot column' hlt (by omega))
        simpa using hoverlap
      rw [hfirst]
      exact .inl ⟨rfl, hcolumn⟩
    · refine .inr ⟨h.lt_of_not_fits hrow fun column' hcolumn' => ?_, fun column' hsome => ?_⟩
      · exact hnot column' (by omega) hcolumn'
      · cases hsome
        rw [clampTableColspan_eq hrange]
        omega

/-- The slots of the cells are pairwise apart. -/
def Apart (placed : List TableSlots) : Prop := placed.Pairwise fun s t => ¬s.Overlap t

theorem overlap_comm : s.Overlap t ↔ t.Overlap s := by
  simp only [TableSlots.Overlap, and_comm]

theorem apart_concat (h : Apart placed) :
    Apart (placed ++ [cell.slots row (firstColumn placed row cell)]) := by
  rw [Apart, List.pairwise_append]
  refine ⟨h, List.pairwise_singleton _ _, fun s hs t ht => ?_⟩
  rw [List.mem_singleton.mp ht, overlap_comm]
  exact not_overlap_firstColumn hs

theorem apart_clamp (h : Apart placed) : Apart (placed.map (TableSlots.clamp n)) := by
  rw [Apart, List.pairwise_map]
  refine h.imp fun hapart hoverlap => hapart ?_
  obtain ⟨row, column, hs, ht⟩ := hoverlap
  refine ⟨row, column, ?_, ?_⟩
  · simp only [TableSlots.clamp, TableSlots.Covers] at *
    omega
  · simp only [TableSlots.clamp, TableSlots.Covers] at *
    omega

/-- **The loops** over the cells that are left. -/
theorem measureTableCells_spec (h : Marks n occupancy placed) (hmax : 0 < maxColumns)
    (hcells : ∀ cell ∈ cells, cell.1 < n) (hwidth : width placed ≤ maxColumns)
    (hapart : Apart placed) :
    (measureTableCells n maxColumns cells occupancy (placed.map (TableSlots.clamp n))).1 =
        min (width (place placed cells)) maxColumns ∧
      Apart (measureTableCells n maxColumns cells occupancy
        (placed.map (TableSlots.clamp n))).2 := by
  induction cells generalizing occupancy placed with
  | nil =>
    rw [measureTableCells, h.count, place]
    exact ⟨(min_eq_left hwidth).symm, apart_clamp hapart⟩
  | cons head cells ih =>
    obtain ⟨row, cell⟩ := head
    have hrow : row < n := hcells (row, cell) List.mem_cons_self
    have hrest := (List.forall_mem_cons.mp hcells).2
    have hrows : 0 < clampTableRowspan cell.rowspan row n := by
      rw [clampTableRowspan_eq 0 hrow]
      exact clamp_pos hrow (one_le_normalize _)
    have hslots : width (placed ++ [cell.slots row (firstColumn placed row cell)]) =
        max (width placed)
          (firstColumn placed row cell + normalizeTableSpan cell.colspan) := width_concat
    rw [measureTableCells, place]
    dsimp only
    rw [if_neg (by omega)]
    obtain ⟨hfound, hfits⟩ | ⟨hover, hcut⟩ := @Marks.firstAvailable _ cell _ _ _ _ h hrow hmax
    · have hcolspan : clampTableColspan (normalizeTableSpan cell.colspan)
          (firstColumn placed row cell) maxColumns = normalizeTableSpan cell.colspan := by
        have hcolumns := one_le_normalize cell.colspan
        rw [clampTableColspan_eq (by omega), min_eq_left (by omega)]
      have hmark := h.mark (s := cell.slots row (firstColumn placed row cell)) hrow
        (one_le_normalize _) (one_le_normalize _)
      have hnext := ih hmark hrest (by rw [hslots]; exact max_le hwidth hfits)
        (apart_concat hapart)
      rw [hfound]
      dsimp only
      rw [if_neg (not_not.mpr hcolspan), hcolspan,
        clampTableRowspan_eq (firstColumn placed row cell) hrow]
      rw [List.map_append] at hnext
      exact hnext
    · have hwide : maxColumns ≤ width
          (place (placed ++ [cell.slots row (firstColumn placed row cell)]) cells) := by
        refine le_trans ?_ width_le_place
        rw [hslots]
        exact le_max_of_le_right hover.le
      split
      · exact ⟨(min_eq_right hwide).symm, apart_clamp hapart⟩
      · next column hfound =>
        rw [if_pos (hcut column hfound)]
        exact ⟨(min_eq_right hwide).symm, apart_clamp hapart⟩

theorem lt_of_mem_tableCells {rows : List TableRow} {p : Nat × TableCell}
    (h : p ∈ tableCells rows) : p.1 < rows.length := by
  simp only [tableCells, List.mem_flatMap, List.mem_map] at h
  obtain ⟨row, hrow, cell, -, rfl⟩ := h
  have hget := List.mk_mem_zipIdx_iff_getElem?.mp hrow
  exact (List.getElem?_eq_some_iff.mp hget).1

/-- **A table is measured right under any limit**: it is as wide as it is without one, or as the
limit, and no two cells that are marked overlap. -/
theorem effectiveTableColumns_eq (rows : List TableRow) (maxColumns : Nat) (h : 1 ≤ maxColumns) :
    effectiveTableColumns rows maxColumns = min (tableWidth rows) maxColumns ∧
      Apart (measureTable rows maxColumns).2 := by
  rw [effectiveTableColumns, measureTable]
  split
  · next hempty =>
    obtain rfl := hempty.resolve_right (by omega)
    exact ⟨rfl, List.Pairwise.nil⟩
  · exact measureTableCells_spec (marks_nil rows.length) h (fun _ => lt_of_mem_tableCells)
      (Nat.zero_le _) List.Pairwise.nil

/-- Two rows, with a cell over both and a wide one below, in a table of two columns. -/
theorem effectiveTableColumns_two :
    effectiveTableColumns [⟨[⟨1, 2⟩]⟩, ⟨[⟨3, 1⟩]⟩] 2 =
        min (tableWidth [⟨[⟨1, 2⟩]⟩, ⟨[⟨3, 1⟩]⟩]) 2 ∧
      Apart (measureTable [⟨[⟨1, 2⟩]⟩, ⟨[⟨3, 1⟩]⟩] 2).2 :=
  effectiveTableColumns_eq [⟨[⟨1, 2⟩]⟩, ⟨[⟨3, 1⟩]⟩] 2 (by decide)

end RichPage

end Iv

end MessengerClient
