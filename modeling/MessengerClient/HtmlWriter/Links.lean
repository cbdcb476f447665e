import MessengerClient.Lib.Json
import Mathlib

/-!
# MessengerClient.HtmlWriter.Links

`MakeLinks` of an export in HTML, of `export/output/export_output_html.cpp`: the runs of a text
that begin with the domain become links.

The loop goes on from the end of a run, and only if the next one begins later.  It always does,
as the byte after a run is none that a run could begin with (`Clear`); but nothing goes before the
beginning of the text, so the loop does not end exactly when the text begins with a run
(`makeLinks_iff`).
-/

namespace MessengerClient

namespace Export

namespace Html

def domain : Bytes := ascii "https://telegram.org/"

/-- The bytes a link goes on with. -/
def isLinkChar (ch : UInt8) : Bool :=
  (0x61 ≤ ch ∧ ch ≤ 0x7a) ∨ (0x41 ≤ ch ∧ ch ≤ 0x5a) ∨ (0x30 ≤ ch ∧ ch ≤ 0x39) ∨
    ch = 0x2d ∨ ch = 0x5f ∨ ch = 0x2f

/-- `QByteArray::indexOf`. -/
def indexOf (value needle : Bytes) (offset : Nat) : Option Nat :=
  (List.range' offset (value.length - offset)).find? fun i => needle.isPrefixOf (value.drop i)

/-- `QByteArray::mid`. -/
def mid (value : Bytes) (start length : Nat) : Bytes := (value.drop start).take length

def anchor (link : Bytes) : Bytes :=
  ascii "<a href=\"" ++ link ++ ascii "\">" ++ link ++ ascii "</a>"

/-! ## The loop -/

structure Making where
  offset : Nat := 0
  result : Bytes := []
deriving DecidableEq, Repr

variable (value : Bytes)

/-- The end of the run that begins at `start`. -/
def endOf (start : Nat) : Nat :=
  start + domain.length + ((value.drop (start + domain.length)).takeWhile isLinkChar).length

/-- One turn of the loop; `none` is its `break`. -/
def turn (s : Making) : Option Making :=
  (indexOf value domain s.offset).map fun start =>
    if start > s.offset then
      { offset := endOf value start
        result := s.result ++ mid value s.offset (start - s.offset) ++
          anchor (mid value start (endOf value start - start)) }
    else
      s

/-- The loop; `none` is that it has not ended after so many turns. -/
def loop : Nat → Making → Option Making
  | 0, _ => none
  | turns + 1, s => (turn value s).elim (some s) (loop turns)

def makeLinks (turns : Nat) : Option Bytes :=
  (loop value turns {}).map fun s =>
    if s.result.isEmpty then value
    else if s.offset < value.length then s.result ++ value.drop s.offset
    else s.result

/-! ## Linked texts -/

/-- The run that a text begins with, if it begins with the domain. -/
def run (value : Bytes) : Bytes := domain ++ (value.drop domain.length).takeWhile isLinkChar

theorem length_run_pos : 0 < (run value).length := by
  rw [run, List.length_append]
  exact Nat.add_pos_left (by decide) _

/-- A text with its runs as links. -/
def linked : Bytes → Bytes
  | [] => []
  | ch :: rest =>
    if domain <+: ch :: rest then
      anchor (run (ch :: rest)) ++ linked ((ch :: rest).drop (run (ch :: rest)).length)
    else
      ch :: linked rest
termination_by value => value.length
decreasing_by
  · have := length_run_pos (ch :: rest)
    rw [List.length_drop, List.length_cons]
    omega
  · rw [List.length_cons]
    exact Nat.lt_succ_self _

variable {value} {s : Making} {start : Nat}

theorem linked_run (h : domain <+: value) :
    linked value = anchor (run value) ++ linked (value.drop (run value).length) := by
  cases value with
  | nil => exact absurd (List.prefix_nil.mp h) (by decide)
  | cons ch rest => rw [linked, if_pos h]

/-- Bytes at which no run begins stay as they are. -/
theorem linked_append {before rest : Bytes}
    (h : ∀ i < before.length, ¬domain <+: (before ++ rest).drop i) :
    linked (before ++ rest) = before ++ linked rest := by
  induction before with
  | nil => rfl
  | cons ch before ih =>
    have hhead := h 0 (Nat.zero_lt_succ _)
    rw [List.drop_zero, List.cons_append] at hhead
    rw [List.cons_append, linked, if_neg hhead, List.cons_append,
      ih fun i hi => h (i + 1) (Nat.succ_lt_succ hi)]

theorem indexOf_some {offset : Nat} (h : indexOf value domain offset = some start) :
    offset ≤ start ∧ domain <+: value.drop start ∧
      ∀ i, offset ≤ i → i < start → ¬domain <+: value.drop i := by
  obtain ⟨hfound, hmem, hbefore⟩ := List.find?_range'_eq_some.mp h
  refine ⟨(List.mem_range'_1.mp hmem).1, List.isPrefixOf_iff_prefix.mp hfound, fun i hle hlt => ?_⟩
  have hnot := hbefore i hle hlt
  rwa [Bool.not_eq_true', ← Bool.not_eq_true, List.isPrefixOf_iff_prefix] at hnot

theorem indexOf_none {offset : Nat} (h : indexOf value domain offset = none) :
    ∀ i, offset ≤ i → i < value.length → ¬domain <+: value.drop i := by
  intro i hle hlt
  have hnot := List.find?_range'_eq_none.mp h i hle (by omega)
  rwa [Bool.not_eq_true', ← Bool.not_eq_true, List.isPrefixOf_iff_prefix] at hnot

theorem run_isPrefix (h : domain <+: value) : run value <+: value := by
  obtain ⟨rest, rfl⟩ := h
  rw [run, List.drop_left]
  exact (List.prefix_append_right_inj _).mpr (List.takeWhile_prefix _)

theorem endOf_eq : endOf value start = start + (run (value.drop start)).length := by
  rw [endOf, run, List.length_append, List.drop_drop, Nat.add_assoc]

/-- **No run begins right after a run**: the byte there is none that a run goes on with. -/
theorem not_domain_after (h : domain <+: value) : ¬domain <+: value.drop (run value).length := by
  obtain ⟨rest, rfl⟩ := h
  have hdrop : rest.drop (rest.takeWhile isLinkChar).length = rest.dropWhile isLinkChar := by
    have hleft : ((rest.takeWhile isLinkChar) ++ rest.dropWhile isLinkChar).drop
        (rest.takeWhile isLinkChar).length = rest.dropWhile isLinkChar := List.drop_left
    rwa [List.takeWhile_append_dropWhile] at hleft
  rw [run, List.drop_left, List.length_append, List.drop_append, List.drop_of_length_le (by omega),
    List.nil_append, Nat.add_sub_cancel_left, hdrop]
  rintro ⟨rest', hrest'⟩
  have hhead := List.head?_dropWhile_not isLinkChar rest
  rw [← hrest'] at hhead
  have hletter : isLinkChar 0x68 = false := hhead
  exact absurd hletter (by decide)

/-- The text from the offset on, up to the end of the run that is found. -/
theorem linked_indexOf {offset : Nat} (h : indexOf value domain offset = some start) :
    linked (value.drop offset) = mid value offset (start - offset) ++
      anchor (mid value start (endOf value start - start)) ++
        linked (value.drop (endOf value start)) := by
  obtain ⟨hle, hfound, hbefore⟩ := indexOf_some h
  have hsplit : value.drop offset = mid value offset (start - offset) ++ value.drop start := by
    have htake := List.take_append_drop (start - offset) (value.drop offset)
    rw [List.drop_drop, Nat.add_sub_cancel' hle] at htake
    exact htake.symm
  have hplain : ∀ i < (mid value offset (start - offset)).length,
      ¬domain <+: (mid value offset (start - offset) ++ value.drop start).drop i := by
    intro i hi
    rw [mid, List.length_take] at hi
    rw [← hsplit, List.drop_drop]
    exact hbefore _ (Nat.le_add_right _ _) (by omega)
  have hrun : mid value start (endOf value start - start) = run (value.drop start) := by
    rw [endOf_eq, Nat.add_sub_cancel_left, mid]
    exact (List.prefix_iff_eq_take.mp (run_isPrefix hfound)).symm
  rw [hsplit, linked_append hplain, linked_run hfound, hrun, endOf_eq, List.drop_drop,
    List.append_assoc]

/-! ## Runs of the loop -/

/-- What holds between the turns, when the text does not begin with a run. -/
structure Made (value : Bytes) (s : Making) : Prop where
  le : s.offset ≤ value.length
  clear : ¬domain <+: value.drop s.offset
  result : s.result ++ linked (value.drop s.offset) = linked value
  begun : s.result = [] → s.offset = 0

theorem anchor_ne_nil (link : Bytes) : anchor link ≠ [] := by
  intro h
  have hlength := congrArg List.length h
  rw [anchor, List.append_assoc, List.append_assoc, List.append_assoc,
    List.length_append] at hlength
  exact absurd (Nat.eq_zero_of_add_eq_zero_right hlength) (by decide)

/-- **A turn goes on**: it makes a link of the next run. -/
theorem Made.goes_on (h : Made value s) {s' : Making} (hturn : turn value s = some s') :
    s.offset < s'.offset ∧ Made value s' := by
  obtain ⟨start, hfound, rfl⟩ := Option.map_eq_some_iff.mp hturn
  obtain ⟨hle, hdomain, -⟩ := indexOf_some hfound
  have hlater : start > s.offset := by
    refine lt_of_le_of_ne hle fun heq => h.clear ?_
    rw [heq]
    exact hdomain
  have hend : endOf value start ≤ value.length := by
    have hrun := (run_isPrefix hdomain).length_le
    have hpos := length_run_pos (value.drop start)
    rw [List.length_drop] at hrun
    rw [endOf_eq]
    omega
  rw [if_pos hlater]
  refine ⟨by dsimp only; rw [endOf_eq]; omega, hend, ?_, ?_, fun hnil => ?_⟩
  · have hafter := not_domain_after hdomain
    rwa [List.drop_drop, ← endOf_eq] at hafter
  · change s.result ++ _ ++ _ ++ linked (value.drop (endOf value start)) = linked value
    rw [← h.result, linked_indexOf hfound, List.append_assoc, List.append_assoc, List.append_assoc]
  · exact absurd (List.append_eq_nil_iff.mp hnil).2 (anchor_ne_nil _)

/-- When no run is found, the rest of the text has no links. -/
theorem Made.last (h : Made value s) (hturn : turn value s = none) :
    s.result ++ value.drop s.offset = linked value := by
  have hnone := indexOf_none (Option.map_eq_none_iff.mp hturn)
  have hplain : ∀ i < (value.drop s.offset).length,
      ¬domain <+: (value.drop s.offset ++ []).drop i := by
    intro i hi
    rw [List.length_drop] at hi
    rw [List.append_nil, List.drop_drop]
    exact hnone _ (Nat.le_add_right _ _) (by omega)
  have hrest := linked_append hplain
  rw [List.append_nil, linked, List.append_nil] at hrest
  rw [← h.result, hrest]

theorem loop_made (h : Made value s) {turns : Nat} (hturns : value.length - s.offset < turns) :
    ∃ s', loop value turns s = some s' ∧ Made value s' ∧ turn value s' = none := by
  induction turns generalizing s with
  | zero => omega
  | succ turns ih =>
    rw [loop]
    cases hturn : turn value s with
    | none => exact ⟨s, rfl, h, hturn⟩
    | some s' =>
      obtain ⟨hlt, hmade⟩ := h.goes_on hturn
      exact ih hmade (by have := hmade.le; omega)

/-- A run at the beginning is found again and again. -/
theorem loop_stuck (h : domain <+: value) (turns : Nat) : loop value turns {} = none := by
  have hpos : 0 < value.length := lt_of_lt_of_le (by decide) (List.IsPrefix.length_le h)
  have hfound : indexOf value domain 0 = some 0 := by
    refine List.find?_range'_eq_some.mpr ⟨List.isPrefixOf_iff_prefix.mpr h, ?_, fun i _ hlt => ?_⟩
    · exact List.mem_range'_1.mpr ⟨le_rfl, by omega⟩
    · exact absurd hlt (Nat.not_lt_zero i)
  have hturn : turn value {} = some {} := by
    rw [turn, hfound]
    rfl
  induction turns with
  | zero => rfl
  | succ turns ih => rw [loop, hturn, Option.elim_some, ih]

/-- **The runs of a text become links, and the loop ends**, exactly when the text does not begin
with a run. -/
theorem makeLinks_iff (value : Bytes) :
    (∃ turns, makeLinks value turns = some (linked value)) ↔ ¬domain <+: value := by
  constructor
  · rintro ⟨turns, hturns⟩ hstart
    rw [makeLinks, loop_stuck hstart] at hturns
    cases hturns
  · intro hstart
    have hmade : Made value {} := ⟨Nat.zero_le _, hstart, rfl, fun _ => rfl⟩
    obtain ⟨s, hloop, hs, hlast⟩ := loop_made hmade (Nat.lt_succ_self _)
    refine ⟨value.length + 1, ?_⟩
    have hmake : makeLinks value (value.length + 1) = some (if s.result.isEmpty then value
        else if s.offset < value.length then s.result ++ value.drop s.offset else s.result) :=
      congrArg (Option.map _) hloop
    rw [hmake, ← hs.last hlast]
    refine congrArg some ?_
    split
    · next hempty =>
      have hnil := List.isEmpty_iff.mp hempty
      rw [hnil, hs.begun hnil]
      rfl
    split
    · rfl
    · next hend => rw [List.drop_of_length_le (not_lt.mp hend), List.append_nil]

/-- The domain alone is a text for which it does not end. -/
theorem not_makeLinks_domain : ¬∃ turns, makeLinks domain turns = some (linked domain) := by
  rintro ⟨turns, hturns⟩
  rw [makeLinks, loop_stuck List.prefix_rfl] at hturns
  cases hturns

end Html

end Export

end MessengerClient
