import Mathlib

/-!
# MessengerClient.Markdown.Lines

Lines and columns of a source, of `iv/markdown/iv_markdown_math.cpp`: the offsets at which its
lines start, and the way from offsets to lines and columns and back.

What a line and a column are is said of the text (`Denotes`): before the byte there are whole
lines, and then the beginning of its own one.  With the line starts of the source the range for
two offsets denotes its first and its last byte (`rangeForOffsets_spec`).
-/

namespace MessengerClient

namespace Iv

namespace Markdown

abbrev Bytes : Type := List UInt8

def newline : UInt8 := 0x0A

structure SourceRange where
  available : Bool := false
  startLine : Int := 0
  startColumn : Int := 0
  endLine : Int := 0
  endColumn : Int := 0
  startOffset : Int := 0
  endOffset : Int := 0
deriving DecidableEq, Repr

/-! ## Line starts -/

/-- The loop of `BuildLineStarts`, from the offset `i`. -/
def lineStartsFrom : Bytes → Int → List Int
  | [], _ => []
  | ch :: rest, i =>
    if ch = newline then (i + 1) :: lineStartsFrom rest (i + 1) else lineStartsFrom rest (i + 1)

def buildLineStarts (source : Bytes) : List Int := 0 :: lineStartsFrom source 0

/-- The line starts up to the offset are those that `std::upper_bound` leaves behind. -/
def offsetToPosition (lineStarts : List Int) (offset : Int) : Int × Int :=
  let clampedOffset := max offset 0
  let passed := lineStarts.takeWhile (· ≤ clampedOffset)
  match passed.getLast? with
  | some start => (passed.length, clampedOffset - start + 1)
  | none => (1, clampedOffset + 1)

/-- `std::clamp`. -/
def clamp (value lo hi : Int) : Int := max lo (min value hi)

def rangeFromLineColumns (lineStarts : List Int)
    (sourceSize startLine startColumn endLine endColumn : Int) : SourceRange :=
  let result : SourceRange := { startLine, startColumn, endLine, endColumn }
  let linesCount : Int := lineStarts.length
  if startLine ≤ 0 ∨ endLine ≤ 0 ∨ startLine > linesCount ∨ endLine > linesCount then
    result
  else
    let maxOffset := max sourceSize 0
    let startOffset := lineStarts.getD (startLine - 1).toNat 0 + max 0 (startColumn - 1)
    let endOffset := lineStarts.getD (endLine - 1).toNat 0 + max 0 endColumn
    { result with
      available := true
      startOffset := clamp startOffset 0 maxOffset
      endOffset := clamp endOffset 0 maxOffset }

def rangeForOffsets (lineStarts : List Int) (sourceSize startOffset endOffset : Int) :
    SourceRange :=
  let start := offsetToPosition lineStarts startOffset
  let last := offsetToPosition lineStarts (max startOffset (endOffset - 1))
  rangeFromLineColumns lineStarts sourceSize start.1 start.2 last.1 last.2

/-! ## What lines and columns denote -/

/-- Whole lines: nothing, or a text that ends with a newline. -/
def WholeLines (lines : Bytes) : Prop := lines = [] ∨ lines.getLast? = some newline

/-- The line and the column, both from one, of the byte at an offset. -/
def Denotes (source : Bytes) (line column : Int) (offset : Nat) : Prop :=
  ∃ lines rest, source.take offset = lines ++ rest ∧ WholeLines lines ∧ newline ∉ rest ∧
    line = lines.count newline + 1 ∧ column = rest.length + 1

variable {source : Bytes}

/-- Every text is whole lines and the beginning of one. -/
theorem exists_wholeLines (text : Bytes) :
    ∃ lines rest, text = lines ++ rest ∧ WholeLines lines ∧ newline ∉ rest := by
  induction text using List.reverseRecOn with
  | nil => exact ⟨[], [], rfl, .inl rfl, List.not_mem_nil⟩
  | append_singleton text ch ih =>
      obtain ⟨lines, rest, rfl, hlines, hrest⟩ := ih
      by_cases h : ch = newline
      · exact ⟨lines ++ rest ++ [ch], [], by simp, .inr (by simp [h]), by simp⟩
      · refine ⟨lines, rest ++ [ch], by simp, hlines, ?_⟩
        simpa [hrest] using Ne.symm h

theorem lineStartsFrom_append (a b : Bytes) (i : Int) :
    lineStartsFrom (a ++ b) i = lineStartsFrom a i ++ lineStartsFrom b (i + a.length) := by
  induction a generalizing i with
  | nil => simp [lineStartsFrom]
  | cons ch a ih =>
      have hshift : i + 1 + (a.length : Int) = i + ((ch :: a).length : Int) := by
        rw [List.length_cons]
        omega
      rw [List.cons_append, lineStartsFrom, lineStartsFrom, ih, hshift]
      split <;> rfl

theorem mem_lineStartsFrom {text : Bytes} {i start : Int} (h : start ∈ lineStartsFrom text i) :
    i < start ∧ start ≤ i + text.length := by
  induction text generalizing i with
  | nil => cases h
  | cons ch text ih =>
      rw [lineStartsFrom] at h
      rw [List.length_cons]
      split at h
      · cases List.mem_cons.mp h with
        | inl heq => omega
        | inr h => have := ih h; omega
      · have := ih h
        omega

@[simp] theorem length_lineStartsFrom (text : Bytes) (i : Int) :
    (lineStartsFrom text i).length = text.count newline := by
  induction text generalizing i with
  | nil => rfl
  | cons ch text ih =>
      rw [lineStartsFrom, List.count_cons]
      split
      · next h => simp [h, ih]
      · next h => simp [h, ih]

theorem lineStartsFrom_eq_nil {text : Bytes} (h : newline ∉ text) (i : Int) :
    lineStartsFrom text i = [] := by
  rw [← List.length_eq_zero_iff, length_lineStartsFrom, List.count_eq_zero]
  exact h

/-- After whole lines a new one starts. -/
theorem getLast?_lineStarts {lines : Bytes} (h : WholeLines lines) :
    (0 :: lineStartsFrom lines 0).getLast? = some (lines.length : Int) := by
  obtain rfl | hlast := h
  · rfl
  · obtain ⟨init, rfl⟩ := List.getLast?_eq_some_iff.mp hlast
    rw [lineStartsFrom_append, lineStartsFrom, if_pos rfl, lineStartsFrom, ← List.cons_append,
      List.getLast?_concat]
    simp

/-- The line starts up to an offset are those of the text before it. -/
theorem takeWhile_lineStarts (before after : Bytes) :
    (buildLineStarts (before ++ after)).takeWhile (· ≤ (before.length : Int)) =
      0 :: lineStartsFrom before 0 := by
  rw [buildLineStarts, lineStartsFrom_append, ← List.cons_append,
    List.takeWhile_append_of_pos, List.append_right_eq_self]
  · cases h : lineStartsFrom after (0 + before.length) with
    | nil => rfl
    | cons start rest =>
        have := mem_lineStartsFrom (h ▸ List.mem_cons_self : start ∈ lineStartsFrom after _)
        rw [List.takeWhile_cons_of_neg]
        simp
        omega
  · intro start hstart
    cases List.mem_cons.mp hstart with
    | inl heq => simp [heq]
    | inr h =>
        have := mem_lineStartsFrom h
        simp
        omega

/-! ## Offsets, lines and columns -/

/-- The line and the column of a byte denote it, and lead back to its offset. -/
theorem offsetToPosition_spec {offset : Nat} (h : offset ≤ source.length) :
    Denotes source (offsetToPosition (buildLineStarts source) offset).1
        (offsetToPosition (buildLineStarts source) offset).2 offset ∧
      (buildLineStarts source).getD
          ((offsetToPosition (buildLineStarts source) offset).1 - 1).toNat 0 =
        offset - ((offsetToPosition (buildLineStarts source) offset).2 - 1) ∧
      (offsetToPosition (buildLineStarts source) offset).1 ≤ (buildLineStarts source).length := by
  have hlength : (source.take offset).length = offset := by simp [h]
  have hpassed := takeWhile_lineStarts (source.take offset) (source.drop offset)
  rw [List.take_append_drop, hlength] at hpassed
  have hmax : max (offset : Int) 0 = offset := by omega
  obtain ⟨lines, rest, htext, hlines, hrest⟩ := exists_wholeLines (source.take offset)
  have hstarts : lineStartsFrom (source.take offset) 0 = lineStartsFrom lines 0 := by
    rw [htext, lineStartsFrom_append, lineStartsFrom_eq_nil hrest, List.append_nil]
  have hcount := congrArg List.length htext
  rw [hlength, List.length_append] at hcount
  have hposition : offsetToPosition (buildLineStarts source) offset =
      ((lines.count newline : Int) + 1, (rest.length : Int) + 1) := by
    rw [offsetToPosition, hmax, hpassed, hstarts, getLast?_lineStarts hlines]
    simp
    omega
  have hprefix : 0 :: lineStartsFrom lines 0 <+: buildLineStarts source := by
    rw [← hstarts, ← hpassed]
    exact List.takeWhile_prefix _
  rw [hposition]
  refine ⟨⟨lines, rest, htext, hlines, hrest, rfl, rfl⟩, ?_, ?_⟩
  · have hlast := getLast?_lineStarts hlines
    rw [List.getLast?_eq_getElem?, List.length_cons, length_lineStartsFrom,
      Nat.add_sub_cancel] at hlast
    obtain ⟨later, hlater⟩ := hprefix
    have hindex : (((lines.count newline : Int) + 1, (rest.length : Int) + 1).1 - 1).toNat =
        lines.count newline := by simp
    rw [hindex, ← hlater, List.getD_eq_getElem?_getD, List.getElem?_append_left (by simp), hlast]
    show (lines.length : Int) = offset - ((rest.length + 1 : Int) - 1)
    omega
  · have := hprefix.length_le
    rw [List.length_cons, length_lineStartsFrom] at this
    show (lines.count newline : Int) + 1 ≤ _
    omega

/-- **The range of two offsets** has them again, and denotes its first and its last byte. -/
theorem rangeForOffsets_spec {start end_ : Nat} (hlt : start < end_) (h : end_ ≤ source.length) :
    let range := rangeForOffsets (buildLineStarts source) source.length start end_
    range.available = true ∧ range.startOffset = start ∧ range.endOffset = end_ ∧
      Denotes source range.startLine range.startColumn start ∧
      Denotes source range.endLine range.endColumn (end_ - 1) := by
  have hmax : max (start : Int) (end_ - 1) = (end_ - 1 : Nat) := by omega
  obtain ⟨hfirst, hfirst', hfirst''⟩ := offsetToPosition_spec (by omega : start ≤ source.length)
  obtain ⟨hlast, hlast', hlast''⟩ := offsetToPosition_spec (by omega : end_ - 1 ≤ source.length)
  dsimp only
  rw [rangeForOffsets, hmax]
  generalize offsetToPosition (buildLineStarts source) start = first at *
  generalize offsetToPosition (buildLineStarts source) (end_ - 1 : Nat) = last at *
  obtain ⟨line, column⟩ := first
  obtain ⟨line', column'⟩ := last
  have hpos : 1 ≤ line ∧ 1 ≤ column := by
    obtain ⟨lines, rest, -, -, -, hline, hcolumn⟩ := hfirst
    dsimp only at hline hcolumn
    omega
  have hpos' : 1 ≤ line' ∧ 1 ≤ column' := by
    obtain ⟨lines, rest, -, -, -, hline, hcolumn⟩ := hlast
    dsimp only at hline hcolumn
    omega
  dsimp only at hfirst' hfirst'' hlast' hlast''
  rw [rangeFromLineColumns, if_neg (by omega)]
  refine ⟨rfl, ?_, ?_, hfirst, hlast⟩
  · simp only [clamp, hfirst']
    omega
  · simp only [clamp, hlast']
    omega

end Markdown

end Iv

end MessengerClient
