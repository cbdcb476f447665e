import MessengerClient.Markdown.Lines
import Mathlib

/-!
# MessengerClient.Markdown.Math

The formulas of a Markdown source, between `$` and `$` or between `$$` and `$$`, found by a scan
that passes over the masked bytes, of `iv/markdown/iv_markdown_math.cpp`.

A candidate that has no end, or looks like an amount of money or like prose, is left, and the
scan goes on one byte later; after a formula it goes on behind it.  So the formulas that are
found are apart, in the order of their places (`scanFrom_spec`).

The source has at most four megabytes, so the offsets of the scan are plain numbers.  A formula
keeps the bytes of its text, which are valid UTF-8 as the source is.
-/

namespace MessengerClient

namespace Iv

namespace Markdown

def dollar : UInt8 := '$'.toUInt8
def backslash : UInt8 := '\\'.toUInt8

/-! ## Formulas -/

structure MathScanBlock where
  range : SourceRange
  nodeKind : String
deriving DecidableEq, Repr

inductive MathKind where
  | Inline | Display
deriving DecidableEq, Repr

structure MathFormula where
  index : Int
  kind : MathKind
  tex : Bytes
  range : SourceRange
  parentNodeKind : String
deriving DecidableEq, Repr

def isMasked (mask : List Bool) (offset : Nat) : Bool := mask.getD offset false

def isAsciiLetter (ch : UInt8) : Bool :=
  'a'.toUInt8 ≤ ch && ch ≤ 'z'.toUInt8 || 'A'.toUInt8 ≤ ch && ch ≤ 'Z'.toUInt8

def isDigit (ch : UInt8) : Bool := '0'.toUInt8 ≤ ch && ch ≤ '9'.toUInt8

def contains (block : MathScanBlock) (line column : Int) : Bool :=
  let range := block.range
  range.available && !(line < range.startLine || line > range.endLine) &&
    !(line == range.startLine && column < range.startColumn) &&
    !(line == range.endLine && column > range.endColumn)

/-- The kind of the smallest block around a position. -/
def findParentBlock (blocks : List MathScanBlock) (line column : Int) : String :=
  (blocks.foldl (fun (best : String × Int) block =>
      let range := block.range
      let span := (range.endLine - range.startLine) * 1000 + (range.endColumn - range.startColumn)
      if contains block line column && span < best.2 then (block.nodeKind, span) else best)
    ("document", 2 ^ 31 - 1)).1

/-! ## What a text looks like -/

def looksLikeCurrency (content : Bytes) : Bool :=
  content.isEmpty ||
    content.all (fun ch => isDigit ch || ch == '.'.toUInt8 || ch == ','.toUInt8 ||
      ch == ' '.toUInt8) && content.any isDigit

def isVisible (ch : UInt8) : Bool :=
  ch != ' '.toUInt8 && ch != '\t'.toUInt8 && ch != newline && ch != '\r'.toUInt8

/-- The loop of `HasStrongMathSignal`; `left` says that a visible byte came before. -/
def hasStrongMathSignalFrom : Bool → Bytes → Bool
  | _, [] => false
  | left, ch :: rest =>
    let hasVisibleNeighbors := left && rest.any isVisible
    let signal :=
      if ch == backslash && !rest.isEmpty then
        rest.head?.any fun next => isAsciiLetter next || next == ','.toUInt8 ||
          next == ':'.toUInt8 || next == ';'.toUInt8 || next == '!'.toUInt8
      else if ch == '^'.toUInt8 || ch == '_'.toUInt8 then hasVisibleNeighbors
      else if ch == '+'.toUInt8 || ch == '='.toUInt8 || ch == '<'.toUInt8 ||
          ch == '>'.toUInt8 then
        hasVisibleNeighbors
      else false
    signal || hasStrongMathSignalFrom (left || isVisible ch) rest

def hasStrongMathSignal (content : Bytes) : Bool := hasStrongMathSignalFrom false content

/-- The lengths of the runs of letters, each with the byte before it. -/
def letterRuns : Option UInt8 → Nat → Bytes → List (Option UInt8 × Nat)
  | before, length, [] => [(before, length)]
  | before, length, ch :: rest =>
    if isAsciiLetter ch then letterRuns before (length + 1) rest
    else (before, length) :: letterRuns (some ch) 0 rest

def looksLikeProse (content : Bytes) : Bool :=
  let words := (letterRuns none 0 content).filter fun run =>
    run.2 ≥ 2 && run.1 != some backslash
  words.length ≥ 2 || words.any fun run => run.2 ≥ 5

/-- The markers at the beginning of a line inside of a quote, with the blanks around them. -/
def stripMarkers (line : Bytes) : Bytes :=
  let rest := line.dropWhile fun ch =>
    ch == ' '.toUInt8 || ch == '\t'.toUInt8 || ch == '>'.toUInt8
  if rest.head? = some ' '.toUInt8 then rest.tail else rest

/-- The first line has no marker. -/
def stripBlockquoteMarkers (content : Bytes) : Bytes :=
  match content.splitOn newline with
  | [] => []
  | first :: lines => List.intercalate [newline] (first :: lines.map stripMarkers)

/-! ## The scan -/

/-- Where the formula ends that is open at `j`. -/
def closingFrom (source : Bytes) (mask : List Bool) (display : Bool) (j : Nat) : Option Nat :=
  if _h : j < source.length then
    if isMasked mask j then closingFrom source mask display (j + 1)
    else if source[j]? = some backslash then closingFrom source mask display (j + 2)
    else if !display ∧ source[j]? = some newline then none
    else if !display ∧ source[j]? = some dollar then some j
    else if display ∧ source[j]? = some dollar ∧ source[j + 1]? = some dollar ∧
        !isMasked mask (j + 1) then
      some j
    else closingFrom source mask display (j + 1)
  else
    none
termination_by source.length - j

/-- What a scan is given. -/
structure Scan where
  source : Bytes
  mask : List Bool
  lineStarts : List Int
  blocks : List MathScanBlock
  maxFormulaBytes : Int
  maxFormulaCount : Int

def exceedsFormulaBytes (content : Bytes) (maxFormulaBytes : Int) : Bool :=
  maxFormulaBytes ≥ 0 && content.length > maxFormulaBytes

def exceedsFormulaCount (formulas : List MathFormula) (maxFormulaCount : Int) : Bool :=
  maxFormulaCount ≥ 0 && formulas.length ≥ maxFormulaCount

namespace Scan

variable (scan : Scan)

/-- Whether a formula may begin at an offset. -/
def opens (i : Nat) : Bool :=
  !(isMasked scan.mask i || scan.source[i]? != some dollar) &&
    !(i > 0 && scan.source[i - 1]? == some backslash)

def displayAt (i : Nat) : Bool :=
  scan.source[i + 1]? == some dollar && !isMasked scan.mask (i + 1)

def delimiterSize (display : Bool) : Nat := if display then 2 else 1

/-- Whether the text between the delimiters is taken for a formula. -/
def accepts (display : Bool) (content : Bytes) : Bool :=
  !(!display && looksLikeCurrency content) &&
    !(!display && !hasStrongMathSignal content && looksLikeProse content)

/-- The text of a formula, without the markers of the quote that it is in. -/
def texOf (display : Bool) (content : Bytes) : Bytes :=
  if display then stripBlockquoteMarkers content else content

def formulaAt (formulas : List MathFormula) (display : Bool) (content : Bytes) (i closing : Nat) :
    MathFormula :=
  let start := offsetToPosition scan.lineStarts i
  { index := formulas.length + 1
    kind := if display then .Display else .Inline
    tex := content
    range := rangeForOffsets scan.lineStarts scan.source.length i (closing + delimiterSize display)
    parentNodeKind := findParentBlock scan.blocks start.1 start.2 }

/-- One step of the scan: the formulas and where it goes on, or an error. -/
def step (formulas : List MathFormula) (i : Nat) : Except String (List MathFormula × Nat) :=
  if !scan.opens i then
    .ok (formulas, i + 1)
  else
    let display := scan.displayAt i
    let contentStart := i + delimiterSize display
    match closingFrom scan.source scan.mask display contentStart with
    | none => .ok (formulas, i + 1)
    | some closing =>
      let content := (scan.source.drop contentStart).take (closing - contentStart)
      if !accepts display content then
        .ok (formulas, i + 1)
      else
        let content := texOf display content
        if exceedsFormulaBytes content scan.maxFormulaBytes then
          .error "formula-too-large"
        else if exceedsFormulaCount formulas scan.maxFormulaCount then
          .error "too-many-formulas"
        else
          .ok (formulas ++ [scan.formulaAt formulas display content i closing],
            closing + delimiterSize display)

theorem le_closingFrom {source : Bytes} {mask : List Bool} {display : Bool} {j closing : Nat}
    (h : closingFrom source mask display j = some closing) : j ≤ closing := by
  fun_induction closingFrom source mask display j with
  | case1 j _ _ ih => have := ih h; omega
  | case2 j _ _ _ ih => have := ih h; omega
  | case3 => cases h
  | case4 => obtain rfl := Option.some.inj h; exact le_rfl
  | case5 => obtain rfl := Option.some.inj h; exact le_rfl
  | case6 j _ _ _ _ _ _ ih => have := ih h; omega
  | case7 => cases h

variable {scan} {formulas formulas' : List MathFormula} {i next : Nat}

/-- A step of the scan, where it does not fail: past a byte, or past a formula. -/
theorem step_cases (h : scan.step formulas i = .ok (formulas', next)) :
    (formulas' = formulas ∧ next = i + 1) ∨
      ∃ display content closing, scan.opens i = true ∧ scan.displayAt i = display ∧
        closingFrom scan.source scan.mask display (i + delimiterSize display) = some closing ∧
        exceedsFormulaCount formulas scan.maxFormulaCount = false ∧
        formulas' = formulas ++ [scan.formulaAt formulas display content i closing] ∧
        next = closing + delimiterSize display := by
  unfold step at h
  split at h
  · obtain ⟨rfl, rfl⟩ := Prod.mk.inj (Except.ok.inj h)
    exact .inl ⟨rfl, rfl⟩
  next hopens =>
  dsimp only at h
  split at h
  · obtain ⟨rfl, rfl⟩ := Prod.mk.inj (Except.ok.inj h)
    exact .inl ⟨rfl, rfl⟩
  next closing hclosing =>
  split at h
  · obtain ⟨rfl, rfl⟩ := Prod.mk.inj (Except.ok.inj h)
    exact .inl ⟨rfl, rfl⟩
  split at h
  · cases h
  split at h
  · cases h
  next hcount =>
  obtain ⟨rfl, rfl⟩ := Prod.mk.inj (Except.ok.inj h)
  exact .inr ⟨_, _, closing, by simpa using hopens, rfl, hclosing, by simpa using hcount, rfl, rfl⟩

theorem delimiterSize_pos (display : Bool) : 0 < delimiterSize display := by
  cases display <;> decide

/-- The scan goes on behind. -/
theorem lt_of_step (h : scan.step formulas i = .ok (formulas', next)) : i < next := by
  obtain ⟨-, rfl⟩ | ⟨display, content, closing, -, -, hclosing, -, -, rfl⟩ := step_cases h
  · exact Nat.lt_succ_self i
  · have := le_closingFrom hclosing
    have := delimiterSize_pos display
    omega

variable (scan)

/-- The rest of the scan, with the formulas that are found. -/
def scanFrom (formulas : List MathFormula) (i : Nat) : Except String (List MathFormula) :=
  if _h : i < scan.source.length then
    match _hstep : scan.step formulas i with
    | .error text => .error text
    | .ok (formulas', next) => scanFrom formulas' next
  else
    .ok formulas
termination_by scan.source.length - i
decreasing_by
  have := lt_of_step _hstep
  omega

end Scan

/-- The result, with what is left in `*out` and `*error`, which may be null. -/
structure Extracted where
  ok : Bool
  out : Option (List MathFormula)
  error : Option String

def extractMathRegions (source : Bytes) (mask : List Bool) (lineStarts : List Int)
    (blocks : List MathScanBlock) (maxFormulaBytes maxFormulaCount : Int)
    (out : Option (List MathFormula)) (error : Option String) : Extracted :=
  match out with
  | none => { ok := false, out := none, error := error.map fun _ => "invalid-output" }
  | some old =>
    let scan : Scan := { source, mask, lineStarts, blocks, maxFormulaBytes, maxFormulaCount }
    match scan.scanFrom [] 0 with
    | .error text => { ok := false, out := some old, error := error.map fun _ => text }
    | .ok formulas => { ok := true, out := some formulas, error := error.map fun _ => "" }

/-! ## The places of formulas -/

/-- A delimiter of formulas stands at an offset. -/
def DollarAt (source : Bytes) (mask : List Bool) (offset : Nat) : Prop :=
  source[offset]? = some dollar ∧ isMasked mask offset = false

def MathKind.delimiterSize : MathKind → Nat
  | .Inline => 1
  | .Display => 2

/-- **The range of a formula** is from its first delimiter to its last, both unmasked, and its
lines and columns denote its first and its last byte. -/
structure Located (source : Bytes) (mask : List Bool) (formula : MathFormula) (start end_ : Nat) :
    Prop where
  available : formula.range.available = true
  startOffset : formula.range.startOffset = start
  endOffset : formula.range.endOffset = end_
  room : start + 2 * formula.kind.delimiterSize ≤ end_
  inside : end_ ≤ source.length
  opening : ∀ k < formula.kind.delimiterSize, DollarAt source mask (start + k)
  closing : ∀ k < formula.kind.delimiterSize, DollarAt source mask (end_ - 1 - k)
  first : Denotes source formula.range.startLine formula.range.startColumn start
  last : Denotes source formula.range.endLine formula.range.endColumn (end_ - 1)

/-- **The formulas of a source**: each in its place, in order and apart, numbered from one, and
not more than there may be. -/
structure Regions (source : Bytes) (mask : List Bool) (maxFormulaCount : Int)
    (formulas : List MathFormula) : Prop where
  located : ∀ formula ∈ formulas, ∃ start end_, Located source mask formula start end_
  apart : formulas.Pairwise fun a b => a.range.endOffset ≤ b.range.startOffset
  indexes : formulas.map MathFormula.index =
    (List.range formulas.length).map fun k : Nat => (k + 1 : Int)
  count : 0 ≤ maxFormulaCount → formulas.length ≤ maxFormulaCount

/-- What a closing delimiter is. -/
theorem closingFrom_spec {source : Bytes} {mask : List Bool} {display : Bool} {j closing : Nat}
    (h : closingFrom source mask display j = some closing) :
    DollarAt source mask closing ∧ (display = true → DollarAt source mask (closing + 1)) := by
  fun_induction closingFrom source mask display j with
  | case1 j _ _ ih => exact ih h
  | case2 j _ _ _ ih => exact ih h
  | case3 => cases h
  | case4 j _ hmask _ _ hclose =>
      obtain rfl := Option.some.inj h
      refine ⟨⟨hclose.2, by simpa using hmask⟩, fun hdisplay => ?_⟩
      rw [hdisplay] at hclose
      exact absurd hclose.1 (by decide)
  | case5 j _ hmask _ _ _ hclose =>
      obtain rfl := Option.some.inj h
      exact ⟨⟨hclose.2.1, by simpa using hmask⟩,
        fun _ => ⟨hclose.2.2.1, by simpa using hclose.2.2.2⟩⟩
  | case6 j _ _ _ _ _ _ ih => exact ih h
  | case7 => cases h

namespace Scan

variable {scan : Scan} {formulas formulas' : List MathFormula} {i next : Nat}

theorem dollarAt_of_opens (h : scan.opens i = true) : DollarAt scan.source scan.mask i := by
  simp only [opens, Bool.and_eq_true, Bool.not_eq_true', Bool.or_eq_false_iff, bne_eq_false_iff_eq]
    at h
  exact ⟨h.1.2, h.1.1⟩

theorem dollarAt_of_displayAt (h : scan.displayAt i = true) :
    DollarAt scan.source scan.mask (i + 1) := by
  simp only [displayAt, Bool.and_eq_true, Bool.not_eq_true', beq_iff_eq] at h
  exact h

/-- A formula that the scan finds is in its place. -/
theorem located_formulaAt (hstarts : scan.lineStarts = buildLineStarts scan.source)
    {display : Bool} {content : Bytes} {closing : Nat} (hopens : scan.opens i = true)
    (hdisplay : scan.displayAt i = display)
    (hclosing : closingFrom scan.source scan.mask display (i + delimiterSize display) =
      some closing) :
    Located scan.source scan.mask (scan.formulaAt formulas display content i closing) i
      (closing + delimiterSize display) := by
  have hle := le_closingFrom hclosing
  have hpos := delimiterSize_pos display
  obtain ⟨hlast, hlast'⟩ := closingFrom_spec hclosing
  have hinside : closing + delimiterSize display ≤ scan.source.length := by
    cases display with
    | false => exact (List.getElem?_eq_some_iff.mp hlast.1).1
    | true => exact (List.getElem?_eq_some_iff.mp (hlast' rfl).1).1
  have hsize : (scan.formulaAt formulas display content i closing).kind.delimiterSize =
      delimiterSize display := by
    cases display <;> rfl
  obtain ⟨havailable, hstart, hend, hfirst, hlastByte⟩ :=
    rangeForOffsets_spec (by omega : i < closing + delimiterSize display) hinside
  rw [← hstarts] at havailable hstart hend hfirst hlastByte
  refine ⟨havailable, hstart, hend, ?_, hinside, ?_, ?_, hfirst, hlastByte⟩
  · rw [hsize]
    omega
  · rw [hsize]
    intro k hk
    cases display with
    | false => exact (by simpa [delimiterSize] using hk : k = 0) ▸ dollarAt_of_opens hopens
    | true =>
        obtain rfl | rfl : k = 0 ∨ k = 1 := by simp [delimiterSize] at hk; omega
        · exact dollarAt_of_opens hopens
        · exact dollarAt_of_displayAt hdisplay
  · rw [hsize]
    intro k hk
    cases display with
    | false => exact (by simpa [delimiterSize] using hk : k = 0) ▸ hlast
    | true =>
        obtain rfl | rfl : k = 0 ∨ k = 1 := by simp [delimiterSize] at hk; omega
        · exact hlast' rfl
        · exact hlast

/-- What the scan has found before an offset. -/
structure Found (scan : Scan) (formulas : List MathFormula) (i : Nat) : Prop where
  regions : Regions scan.source scan.mask scan.maxFormulaCount formulas
  before : ∀ formula ∈ formulas, formula.range.endOffset ≤ i

/-- **One step of the scan** keeps what is found in its place. -/
theorem Found.step (h : scan.Found formulas i)
    (hstarts : scan.lineStarts = buildLineStarts scan.source)
    (hstep : scan.step formulas i = .ok (formulas', next)) : scan.Found formulas' next := by
  obtain ⟨rfl, rfl⟩ | ⟨display, content, closing, hopens, hdisplay, hclosing, hcount, rfl, rfl⟩ :=
    step_cases hstep
  · exact ⟨h.regions, fun formula hformula => by have := h.before formula hformula; omega⟩
  have hlocated := @located_formulaAt scan formulas i hstarts display content closing hopens
    hdisplay hclosing
  have hlt := lt_of_step hstep
  generalize hnew : scan.formulaAt formulas display content i closing = formula at *
  have hindex : formula.index = formulas.length + 1 := hnew ▸ rfl
  constructor
  · constructor
    · intro other hother
      cases List.mem_append.mp hother with
      | inl hold => exact h.regions.located other hold
      | inr hnew => exact (List.mem_singleton.mp hnew) ▸ ⟨i, _, hlocated⟩
    · refine List.pairwise_append.mpr ⟨h.regions.apart, List.pairwise_singleton _ _, ?_⟩
      intro a ha b hb
      rw [List.mem_singleton.mp hb, hlocated.startOffset]
      exact h.before a ha
    · rw [List.map_append, h.regions.indexes, List.length_append, List.length_singleton,
        List.range_succ, List.map_append, List.map_singleton, List.map_singleton, hindex]
    · intro hnonneg
      simp only [exceedsFormulaCount, Bool.and_eq_false_iff, decide_eq_false_iff_not] at hcount
      rw [List.length_append, List.length_singleton]
      omega
  · intro other hother
    cases List.mem_append.mp hother with
    | inl hold => have := h.before other hold; omega
    | inr hnew => rw [List.mem_singleton.mp hnew, hlocated.endOffset]

/-- **The whole scan**, step by step. -/
theorem Found.scanFrom (h : scan.Found formulas i)
    (hstarts : scan.lineStarts = buildLineStarts scan.source)
    (hscan : scan.scanFrom formulas i = .ok formulas') :
    Regions scan.source scan.mask scan.maxFormulaCount formulas' := by
  fun_induction Scan.scanFrom scan formulas i with
  | case1 => cases hscan
  | case2 _ _ _ _ _ hstep ih => exact ih (h.step hstarts hstep) hscan
  | case3 => exact Except.ok.inj hscan ▸ h.regions

end Scan

/-- **Extracted formulas point at their own source**, and a failure leaves what was there. -/
theorem extractMathRegions_regions (source : Bytes) (mask : List Bool)
    (blocks : List MathScanBlock) (maxFormulaBytes maxFormulaCount : Int)
    (out : Option (List MathFormula)) (error : Option String) :
    let result := extractMathRegions source mask (buildLineStarts source) blocks maxFormulaBytes
      maxFormulaCount out error
    (result.ok = true → ∃ formulas, result.out = some formulas ∧
      Regions source mask maxFormulaCount formulas) ∧
    (result.ok = false → result.out = out) := by
  unfold extractMathRegions
  cases out with
  | none => exact ⟨fun hok => Bool.noConfusion hok, fun _ => rfl⟩
  | some old =>
      dsimp only
      split
      · exact ⟨fun hok => Bool.noConfusion hok, fun _ => rfl⟩
      · next formulas hscan =>
        refine ⟨fun _ => ⟨formulas, rfl, ?_⟩, fun hok => Bool.noConfusion hok⟩
        refine Scan.Found.scanFrom ⟨⟨?_, List.Pairwise.nil, rfl, fun hnonneg => hnonneg⟩, ?_⟩
          rfl hscan
        · simp
        · simp

end Markdown

end Iv

end MessengerClient
