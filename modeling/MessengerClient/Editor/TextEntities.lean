import MessengerClient.Lib.Replacements
import MessengerClient.Lib.Utf16
import MessengerClient.Markdown.InlineObject
import MessengerClient.Markdown.Links
import Mathlib

/-!
# MessengerClient.Editor.TextEntities

Texts with formulas, as the editor shows them, of `iv/editor/iv_editor_text_entities.cpp`: a formula
is one unit of a rich text, with its source in an entity, and in the editor it is that source,
with a tag.

Formulas are replaced from the last one on, and what is behind them moves.  For the text itself this
is a replacement of parts, and the offsets of the cursor are mapped by it
(`mapRichTextOffsetToEditorOffset_spec`).

Texts are lists of UTF-16 units, in which offsets count; the strings of entities and tags are never
counted in.  Offsets and lengths are natural numbers.
-/

namespace MessengerClient

namespace Iv

namespace Editor

open Markdown Texts

abbrev Units : Type := List UInt16

/-- The types that are told apart here. -/
inductive EntityType where
  | CustomEmoji
  | CustomUrl
  | Subscript
  | Superscript
  | Marked
  | other (value : Nat)
deriving DecidableEq, Repr

structure EntityInText where
  type : EntityType
  offset : Nat
  length : Nat
  data : List Char := []
deriving DecidableEq, Repr

structure Tag where
  offset : Nat
  length : Nat
  id : List Char
deriving DecidableEq, Repr

structure TextWithEntities where
  text : Units
  entities : List EntityInText
deriving DecidableEq, Repr

structure TextWithTags where
  text : Units
  tags : List Tag
deriving DecidableEq, Repr

structure TextRange where
  offset : Nat
  length : Nat
deriving DecidableEq, Repr

structure RichTextEditorOffsetReplacement where
  richOffset : Nat := 0
  richLength : Nat := 0
  editorLength : Nat := 0
deriving DecidableEq, Repr

structure RichTextEditorConversion where
  text : TextWithTags
  replacements : List RichTextEditorOffsetReplacement

/-- `TextUtilities` and the tags of `Ui::InputField`, as far as formulas need them. -/
structure TextUtilities where
  toolkit : Toolkit
  splitTags : List Char → List (List Char)
  joinTag : List (List Char) → List Char
  tagWithAdded : List Char → List Char → List Char
  convertEntitiesToTextTags : List EntityInText → List Tag
  convertTextTagsToEntities : List Tag → List EntityInText
  isInstantViewEditorTag : List Char → Bool
  isInstantViewAnchorLink : List Char → Bool
  kTagIvMath : List Char
  kTagIvMarked : List Char
  kTagIvSubscript : List Char
  kTagIvSuperscript : List Char
  typeValue : EntityType → Nat
  /-- `operator<` of strings. -/
  less : List Char → List Char → Bool
  splitTags_math : splitTags kTagIvMath = [kTagIvMath]
  joinTag_nil : joinTag [] = []
  isInstantViewEditorTag_math : isInstantViewEditorTag kTagIvMath
  isInstantViewAnchorLink_math : isInstantViewAnchorLink kTagIvMath = false
  math_ne_nil : kTagIvMath ≠ []
  math_ne : kTagIvMath ∉ [kTagIvMarked, kTagIvSubscript, kTagIvSuperscript]
  convertEntitiesToTextTags_nil : convertEntitiesToTextTags [] = []
  convertTextTagsToEntities_nil : convertTextTagsToEntities [] = []

def objectReplacementCharacter : UInt16 := 0xFFFC

def rangeInsideText (text : Units) (offset length : Nat) : Bool :=
  offset ≤ text.length && length ≤ text.length - offset

def isFormulaObjectSpan (text : Units) (entity : EntityInText) : Bool :=
  entity.length = 1 && rangeInsideText text entity.offset entity.length
    && text[entity.offset]? = some objectReplacementCharacter

def formulaDataFromEntity (entity : EntityInText) : Option InlineTextObjectFormulaData :=
  if entity.type ≠ .CustomEmoji then none
  else
    match parseInlineTextObjectEntity entity.data with
    | none => none
    | some parsed =>
      if parsed.kind ≠ .formula then none
      else
        match parsed.data with
        | .formula formula => some formula
        | .ivImage _ => none

def stripDelimiters (text : List Char) : List Char :=
  let result := trimmed text
  if result.length ≥ 2 ∧ result.head? = some '$' ∧ result.getLast? = some '$' then
    trimmed ((result.drop 1).take (result.length - 2))
  else result

def editorSourceForFormula (formula : InlineTextObjectFormulaData) : Units :=
  if formula.trimmedTex ≠ [] then
    Utf16.encode (inlineFormulaCopySource (stripDelimiters formula.trimmedTex))
  else Utf16.encode (inlineFormulaCopySource (stripDelimiters formula.copySource))

def adjustEntityForReplacement (entity : EntityInText) (from_ oldLength newLength : Nat) :
    Option EntityInText :=
  let till := from_ + oldLength
  let begin_ := entity.offset
  let end_ := begin_ + entity.length
  if end_ ≤ from_ then some entity
  else if begin_ ≥ till then some { entity with offset := begin_ + newLength - oldLength }
  else if begin_ ≤ from_ ∧ end_ ≥ till then
    let length := entity.length + newLength - oldLength
    if length = 0 then none else some { entity with length }
  else none

def adjustTagForReplacement (tag : Tag) (from_ oldLength newLength : Nat) : Option Tag :=
  let till := from_ + oldLength
  let begin_ := tag.offset
  let end_ := begin_ + tag.length
  if end_ ≤ from_ then some tag
  else if begin_ ≥ till then some { tag with offset := begin_ + newLength - oldLength }
  else if begin_ ≤ from_ ∧ end_ ≥ till then
    let length := tag.length + newLength - oldLength
    if length = 0 then none else some { tag with length }
  else none

/-! ## Tags -/

/-- `TextUtilities::SimplifyTags`: tags that touch and are the same become one. -/
def simplifyTags : List Tag → List Tag
  | [] => []
  | tag :: tags =>
    match simplifyTags tags with
    | [] => [tag]
    | next :: rest =>
      if tag.id = next.id ∧ tag.offset + tag.length = next.offset then
        { tag with length := tag.length + next.length } :: rest
      else tag :: next :: rest

variable (util : TextUtilities)

def tagLess (a b : Tag) : Bool :=
  if a.offset ≠ b.offset then a.offset < b.offset
  else if a.length ≠ b.length then a.length < b.length
  else util.less a.id b.id

def sortTags (tags : List Tag) : List Tag := tags.mergeSort fun a b => !tagLess util b a

def tagsWithoutIvEditorTags (id : List Char) : List Char :=
  util.joinTag ((util.splitTags id).filter fun tag =>
    !util.isInstantViewEditorTag tag && tag.head? ≠ some '#')

def genericTagsWithoutIvEditorTags (tags : List Tag) : List Tag :=
  tags.filterMap fun tag =>
    let filtered := tagsWithoutIvEditorTags util tag.id
    if filtered = [] then none else some { tag with id := filtered }

def isValidAnchorEntity (entity : EntityInText) : Bool :=
  if entity.type ≠ .CustomUrl || !util.isInstantViewAnchorLink entity.data then false
  else normalizeFragmentId util.toolkit (entity.data.drop 1) ≠ []

/-- The tag of an entity in `AppendIvEntityTags`. -/
def ivEntityTag (entity : EntityInText) : Option Tag :=
  if entity.length = 0 then none
  else
    match entity.type with
    | .Subscript => some ⟨entity.offset, entity.length, util.kTagIvSubscript⟩
    | .Superscript => some ⟨entity.offset, entity.length, util.kTagIvSuperscript⟩
    | .Marked => some ⟨entity.offset, entity.length, util.kTagIvMarked⟩
    | .CustomUrl =>
      if isValidAnchorEntity util entity then some ⟨entity.offset, entity.length, entity.data⟩
      else none
    | _ => none

def appendIvEntityTags (tags : List Tag) (entities : List EntityInText) : List Tag :=
  tags ++ entities.filterMap (ivEntityTag util)

/-- The loop of `OverlayTag`, with `coveredTill` and what is written for each tag. -/
def overlayLoop (overlay : Tag) : Nat → List Tag → List Tag
  | coveredTill, [] =>
    if coveredTill < overlay.offset + overlay.length then
      [⟨coveredTill, overlay.offset + overlay.length - coveredTill, overlay.id⟩]
    else []
  | coveredTill, tag :: tags =>
    let from_ := overlay.offset
    let till := from_ + overlay.length
    let tagFrom := tag.offset
    let tagTill := tag.offset + tag.length
    if tagTill ≤ from_ then tag :: overlayLoop overlay coveredTill tags
    else if tagFrom ≥ till then
      if coveredTill < till then
        ⟨coveredTill, till - coveredTill, overlay.id⟩ :: tag :: overlayLoop overlay till tags
      else tag :: overlayLoop overlay coveredTill tags
    else
      let before := if tagFrom > coveredTill then
          [⟨coveredTill, tagFrom - coveredTill, overlay.id⟩] else []
      let coveredTill := if tagFrom > coveredTill then tagFrom else coveredTill
      let left := if tagFrom < from_ then [⟨tagFrom, from_ - tagFrom, tag.id⟩] else []
      let middleFrom := max tagFrom from_
      let middleTill := min tagTill till
      let middle := if middleFrom < middleTill then
          [⟨middleFrom, middleTill - middleFrom, util.tagWithAdded tag.id overlay.id⟩] else []
      let coveredTill := if middleFrom < middleTill then middleTill else coveredTill
      let right := if tagTill > till then [⟨till, tagTill - till, tag.id⟩] else []
      before ++ left ++ middle ++ right ++ overlayLoop overlay coveredTill tags

def overlayTag (tags : List Tag) (overlay : Tag) (text : Units) : List Tag :=
  if overlay.id = [] || overlay.length = 0 || !rangeInsideText text overlay.offset overlay.length
  then tags
  else simplifyTags (sortTags util (overlayLoop util overlay overlay.offset tags))

def overlayTags (tags overlays : List Tag) (text : Units) : List Tag :=
  overlays.foldl (fun tags overlay => overlayTag util tags overlay text) tags

/-- What is left of a range in `SubtractRange`. -/
def subtractRange (ranges : List TextRange) (from_ till : Nat) : List TextRange :=
  ranges.flatMap fun range =>
    let rangeFrom := range.offset
    let rangeTill := range.offset + range.length
    if rangeTill ≤ from_ ∨ rangeFrom ≥ till then [range]
    else
      (if rangeFrom < from_ then [⟨rangeFrom, from_ - rangeFrom⟩] else [])
        ++ if rangeTill > till then [⟨till, rangeTill - till⟩] else []

def removeRangesFromTags (tags removed : List Tag) : List Tag :=
  let result := tags.flatMap fun tag =>
    let ranges := removed.foldl
      (fun ranges remove => subtractRange ranges remove.offset (remove.offset + remove.length))
      [⟨tag.offset, tag.length⟩]
    ranges.filterMap fun range =>
      if range.length > 0 then some ⟨range.offset, range.length, tag.id⟩ else none
  simplifyTags (sortTags util result)

/-! ## To the editor -/

abbrev FormulaReplacement : Type := Replacement UInt16

/-- The formula that an entity of a text is. -/
def formulaOf (text : Units) (entity : EntityInText) : Option FormulaReplacement :=
  match formulaDataFromEntity entity with
  | none => none
  | some formula =>
    if isFormulaObjectSpan text entity then
      some ⟨entity.offset, entity.length, editorSourceForFormula formula⟩
    else none

def formulasOf (text : TextWithEntities) : List FormulaReplacement :=
  text.entities.filterMap (formulaOf text.text)

/-- What the loop over the formulas changes. -/
structure FormulaLoop where
  text : Units
  entities : List EntityInText
  mathTags : List Tag := []
  replacements : List RichTextEditorOffsetReplacement := []

/-- The body of the loop over the formulas. -/
def FormulaLoop.replace (loop : FormulaLoop) (formula : FormulaReplacement) : FormulaLoop where
  text := formula.splice loop.text
  entities := loop.entities.filterMap fun entity =>
    adjustEntityForReplacement entity formula.offset formula.length formula.source.length
  mathTags :=
    (loop.mathTags.filterMap fun tag =>
      adjustTagForReplacement tag formula.offset formula.length formula.source.length)
    ++ if formula.source.length > 0 then
        [⟨formula.offset, formula.source.length, util.kTagIvMath⟩] else []
  replacements :=
    loop.replacements ++ [⟨formula.offset, formula.length, formula.source.length⟩]

/-- The formulas with the last one first, and the loop over them. -/
def replaceFormulas (formulas : List FormulaReplacement) (loop : FormulaLoop) : FormulaLoop :=
  (formulas.mergeSort fun a b => b.offset ≤ a.offset).foldl (FormulaLoop.replace util) loop

def sortReplacements (replacements : List RichTextEditorOffsetReplacement) :
    List RichTextEditorOffsetReplacement :=
  replacements.mergeSort fun a b => a.richOffset ≤ b.richOffset

def convertRichTextToEditorTags (text : TextWithEntities) : RichTextEditorConversion :=
  let entities := text.entities.filter fun entity => (formulaOf text.text entity).isNone
  let loop := replaceFormulas util (formulasOf text) { text := text.text, entities }
  let tags := util.convertEntitiesToTextTags loop.entities
  let ivTags := appendIvEntityTags util [] loop.entities
  let tags := removeRangesFromTags util tags loop.mathTags
  let ivTags := removeRangesFromTags util ivTags loop.mathTags
  let tags := overlayTags util tags ivTags loop.text
  let tags := overlayTags util tags loop.mathTags loop.text
  { text := { text := loop.text, tags := simplifyTags (sortTags util tags) }
    replacements := sortReplacements loop.replacements }

/-- The loop of `MapRichTextOffsetToEditorOffset`. -/
def mapOffsetLoop : List RichTextEditorOffsetReplacement → Int → Nat → Int
  | [], delta, offset => offset + delta
  | replacement :: replacements, delta, offset =>
    if replacement.richLength = 0 then mapOffsetLoop replacements delta offset
    else
      let richStart := replacement.richOffset
      let richEnd := richStart + replacement.richLength
      let editorStart := richStart + delta
      if offset < richStart then offset + delta
      else if offset ≤ richEnd then
        editorStart + (if offset = richEnd then replacement.editorLength else 0)
      else
        mapOffsetLoop replacements (delta + (replacement.editorLength - replacement.richLength))
          offset

def mapRichTextOffsetToEditorOffset (replacements : List RichTextEditorOffsetReplacement)
    (offset : Nat) : Int :=
  mapOffsetLoop replacements 0 offset

/-! ## Offsets -/

variable {util : TextUtilities} {formulas : List FormulaReplacement} {loop : FormulaLoop}
  {text : Units}

/-- The record of a replacement. -/
def recordOf (formula : FormulaReplacement) : RichTextEditorOffsetReplacement :=
  ⟨formula.offset, formula.length, formula.source.length⟩

/-- What the offsets of a rich text are mapped to: in the same order, and before each of them the
editor has the rich text before the offset with its formulas replaced. -/
structure MapsOffsets (formulas : List FormulaReplacement) (text editorText : Units)
    (replacements : List RichTextEditorOffsetReplacement) : Prop where
  monotone : ∀ a b, a ≤ b → b ≤ text.length →
    mapRichTextOffsetToEditorOffset replacements a ≤ mapRichTextOffsetToEditorOffset replacements b
  before : ∀ offset, offset ≤ text.length → ¬Replacement.Within formulas offset →
    0 ≤ mapRichTextOffsetToEditorOffset replacements offset ∧
      editorText.take (mapRichTextOffsetToEditorOffset replacements offset).toNat =
        Replacement.expand formulas text offset

theorem foldl_replace_text (formulas : List FormulaReplacement) (loop : FormulaLoop) :
    (formulas.foldl (FormulaLoop.replace util) loop).text =
      formulas.foldl (fun text formula => formula.splice text) loop.text := by
  induction formulas generalizing loop with
  | nil => rfl
  | cons formula formulas ih => rw [List.foldl_cons, ih, List.foldl_cons]; rfl

theorem foldl_replace_replacements (formulas : List FormulaReplacement) (loop : FormulaLoop) :
    (formulas.foldl (FormulaLoop.replace util) loop).replacements =
      loop.replacements ++ formulas.map recordOf := by
  induction formulas generalizing loop with
  | nil => simp
  | cons formula formulas ih =>
    rw [List.foldl_cons, ih, FormulaLoop.replace, List.map_cons, List.append_assoc]
    rfl

/-- The formulas with the first one first. -/
def ascending (formulas : List FormulaReplacement) : List FormulaReplacement :=
  (formulas.mergeSort fun a b => b.offset ≤ a.offset).reverse

theorem ascending_perm (formulas : List FormulaReplacement) :
    formulas.Perm (ascending formulas) :=
  ((List.mergeSort_perm _ _).symm).trans (List.reverse_perm _).symm

theorem ascending_sorted (formulas : List FormulaReplacement) :
    (ascending formulas).Pairwise (·.offset ≤ ·.offset) := by
  have hsorted := @List.pairwise_mergeSort FormulaReplacement
    (fun a b => decide (b.offset ≤ a.offset)) (fun a b c hab hbc => by simp at *; omega)
    (fun a b => by simp; omega) formulas
  rw [ascending, List.pairwise_reverse]
  exact hsorted.imp fun h => by simpa using h

/-- **The text of the editor** is the text with its formulas replaced from the back. -/
theorem replaceFormulas_text (formulas : List FormulaReplacement) (loop : FormulaLoop) :
    (replaceFormulas util formulas loop).text =
      Replacement.spliceAll (ascending formulas) loop.text := by
  rw [replaceFormulas, foldl_replace_text, List.foldl_eq_foldr_reverse]
  rfl

theorem mapOffsetLoop_map (hpos : ∀ formula ∈ formulas, 0 < formula.length) (delta : Int)
    (offset : Nat) :
    mapOffsetLoop (formulas.map recordOf) delta offset =
      Replacement.mapOffset formulas delta offset := by
  induction formulas generalizing delta with
  | nil => rfl
  | cons formula formulas ih =>
    obtain ⟨hlength, hrest⟩ := List.forall_mem_cons.mp hpos
    have hne : (recordOf formula).richLength ≠ 0 := Nat.ne_of_gt hlength
    rw [List.map_cons, mapOffsetLoop, if_neg hne, ih hrest, Replacement.mapOffset]
    rfl

/-- The records in the order of the offsets. -/
theorem sortReplacements_eq (hdistinct : (ascending formulas).Pairwise (·.offset < ·.offset)) :
    sortReplacements ((formulas.mergeSort fun a b => b.offset ≤ a.offset).map recordOf) =
      (ascending formulas).map recordOf := by
  have hsorted := @List.pairwise_mergeSort RichTextEditorOffsetReplacement
    (fun a b => decide (a.richOffset ≤ b.richOffset)) (fun a b c hab hbc => by simp at *; omega)
    (fun a b => by simp; omega) ((formulas.mergeSort fun a b => b.offset ≤ a.offset).map recordOf)
  have hrecords : ((ascending formulas).map recordOf).Pairwise (·.richOffset < ·.richOffset) :=
    List.pairwise_map.mpr hdistinct
  have hperm : ((formulas.mergeSort fun a b => b.offset ≤ a.offset).map recordOf).Perm
      ((ascending formulas).map recordOf) := (List.reverse_perm _).symm.map recordOf
  refine List.Perm.eq_of_pairwise (fun a b ha hb hab hba => ?_) hsorted
    (hrecords.imp fun h => by simpa using h.le) ((List.mergeSort_perm _ _).trans hperm)
  -- records with the same offset are the same, as no two of them have one
  have hnodup : (((ascending formulas).map recordOf).map (·.richOffset)).Nodup :=
    List.pairwise_map.mpr (hrecords.imp fun h => Nat.ne_of_lt h)
  have ha' : a ∈ (ascending formulas).map recordOf :=
    hperm.mem_iff.mp ((List.mergeSort_perm _ _).mem_iff.mp ha)
  exact List.inj_on_of_nodup_map hnodup ha' hb
    (le_antisymm (of_decide_eq_true hab) (of_decide_eq_true hba))

/-- Formulas that are apart are one behind the other. -/
theorem ascending_of_apart (hpos : ∀ formula ∈ formulas, 0 < formula.length)
    (h : formulas.Pairwise Replacement.Apart) : Replacement.Ascending 0 (ascending formulas) := by
  have hperm := ascending_perm formulas
  refine Replacement.ascending_of_sorted (fun _ _ => Nat.zero_le _)
    (fun formula hformula => hpos formula (hperm.mem_iff.mpr hformula))
    (ascending_sorted formulas) (h.perm hperm Or.symm)

theorem ascending_lt {start : Nat} (h : Replacement.Ascending start formulas) :
    formulas.Pairwise (·.offset < ·.offset) := by
  induction formulas generalizing start with
  | nil => exact List.Pairwise.nil
  | cons formula formulas ih =>
    refine List.pairwise_cons.mpr ⟨fun other hother => ?_, ih h.2.2⟩
    have hle := h.2.2.offset_le hother
    have hlength := h.2.1
    rw [Replacement.stop] at hle
    omega

/-- **The loop over formulas that are apart** maps the offsets right, whatever their sources. -/
theorem replaceFormulas_maps (hpos : ∀ formula ∈ formulas, 0 < formula.length)
    (h : formulas.Pairwise Replacement.Apart) (hfits : Replacement.Fits formulas loop.text)
    (hloop : loop.replacements = []) :
    MapsOffsets formulas loop.text (replaceFormulas util formulas loop).text
      (sortReplacements (replaceFormulas util formulas loop).replacements) := by
  have hperm := ascending_perm formulas
  have hascending := ascending_of_apart hpos h
  have hpos' : ∀ formula ∈ ascending formulas, 0 < formula.length :=
    fun formula hformula => hpos formula (hperm.mem_iff.mpr hformula)
  have hfits' : Replacement.Fits (ascending formulas) loop.text :=
    fun formula hformula => hfits formula (hperm.mem_iff.mpr hformula)
  have hrecords : sortReplacements (replaceFormulas util formulas loop).replacements =
      (ascending formulas).map recordOf := by
    rw [replaceFormulas, foldl_replace_replacements, hloop, List.nil_append]
    exact sortReplacements_eq (ascending_lt hascending)
  have hmap : ∀ offset, mapRichTextOffsetToEditorOffset
      (sortReplacements (replaceFormulas util formulas loop).replacements) offset =
        Replacement.mapOffset (ascending formulas) 0 offset := by
    intro offset
    rw [hrecords, mapRichTextOffsetToEditorOffset, mapOffsetLoop_map hpos']
  constructor
  · intro a b hab hb
    rw [hmap, hmap]
    exact Replacement.mapOffset_mono hascending hab hb
  · intro offset hoffset hwithin
    have hwithin' : ¬Replacement.Within (ascending formulas) offset := by
      rintro ⟨formula, hformula, hinside⟩
      exact hwithin ⟨formula, hperm.mem_iff.mpr hformula, hinside⟩
    rw [hmap, replaceFormulas_text, Replacement.expand_perm h hperm]
    exact Replacement.take_mapOffset hascending hfits' hoffset hwithin'

/-- A formula of a text is one unit of it. -/
theorem mem_formulasOf {text : TextWithEntities} {formula : FormulaReplacement}
    (h : formula ∈ formulasOf text) : formula.length = 1 ∧ formula.stop ≤ text.text.length := by
  rw [formulasOf, List.mem_filterMap] at h
  obtain ⟨entity, -, hformula⟩ := h
  rw [formulaOf] at hformula
  split at hformula
  · cases hformula
  · split at hformula
    · next hspan =>
      cases hformula
      simp only [isFormulaObjectSpan, rangeInsideText, Bool.and_eq_true, decide_eq_true_eq] at hspan
      obtain ⟨⟨hlength, hoffset, hrange⟩, -⟩ := hspan
      refine ⟨hlength, ?_⟩
      simp only [Replacement.stop]
      omega
    · cases hformula

/-- **Cursor positions are mapped right**: for the formulas of a text that are apart, and for any
parts of a text that the loop replaces by any sources. -/
theorem mapRichTextOffsetToEditorOffset_spec (util : TextUtilities) :
    (∀ text : TextWithEntities, (formulasOf text).Pairwise Replacement.Apart →
      MapsOffsets (formulasOf text) text.text (convertRichTextToEditorTags util text).text.text
        (convertRichTextToEditorTags util text).replacements) ∧
    (∀ (formulas : List FormulaReplacement) (text : Units) (entities : List EntityInText),
      (∀ formula ∈ formulas, 0 < formula.length) → formulas.Pairwise Replacement.Apart →
      Replacement.Fits formulas text →
      MapsOffsets formulas text (replaceFormulas util formulas { text, entities }).text
        (sortReplacements (replaceFormulas util formulas { text, entities }).replacements)) := by
  constructor
  · intro text h
    have hpos : ∀ formula ∈ formulasOf text, 0 < formula.length := by
      intro formula hformula
      rw [(mem_formulasOf hformula).1]
      exact Nat.one_pos
    exact @replaceFormulas_maps util (formulasOf text) { text := text.text, entities := _ } hpos h
      (fun formula hformula => (mem_formulasOf hformula).2) rfl
  · intro formulas text entities hpos h hfits
    exact @replaceFormulas_maps util formulas { text, entities } hpos h hfits rfl

/-! ## A text with two formulas -/

/-- The tags of formulas and no others. -/
def mathUtilities : TextUtilities where
  toolkit := asciiToolkit
  splitTags id := if id = [] then [] else id.splitOn '\\'
  joinTag := List.intercalate ['\\']
  tagWithAdded a b := if a = [] then b else a ++ '\\' :: b
  convertEntitiesToTextTags _ := []
  convertTextTagsToEntities _ := []
  isInstantViewEditorTag tag := tag ∈ [['m'], ['h'], ['b'], ['p']]
  isInstantViewAnchorLink tag := tag.head? = some '#'
  kTagIvMath := ['m']
  kTagIvMarked := ['h']
  kTagIvSubscript := ['b']
  kTagIvSuperscript := ['p']
  typeValue _ := 0
  less a b := a < b
  splitTags_math := by decide
  joinTag_nil := rfl
  isInstantViewEditorTag_math := by decide
  isInstantViewAnchorLink_math := by decide
  math_ne_nil := by decide
  math_ne := by decide
  convertEntitiesToTextTags_nil := rfl
  convertTextTagsToEntities_nil := rfl

/-- The entity of a formula. -/
def formulaEntity (offset : Nat) (tex : List Char) : EntityInText :=
  ⟨.CustomEmoji, offset, 1, serializeInlineTextObjectEntity (formulaObject tex)⟩

theorem formulaOf_span {entity : EntityInText} {formula : FormulaReplacement}
    (h : formulaOf text entity = some formula) :
    formula.offset = entity.offset ∧ formula.length = entity.length := by
  rw [formulaOf] at h
  split at h
  · cases h
  · split at h
    · cases h
      exact ⟨rfl, rfl⟩
    · cases h

/-- Formulas are apart where their entities are. -/
theorem formulasOf_apart {text : TextWithEntities} (h : text.entities.Pairwise fun a b =>
    a.offset + a.length ≤ b.offset ∨ b.offset + b.length ≤ a.offset) :
    (formulasOf text).Pairwise Replacement.Apart := by
  rw [formulasOf, List.pairwise_filterMap]
  refine h.imp fun hapart first hfirst second hsecond => ?_
  obtain ⟨hoffset, hlength⟩ := formulaOf_span hfirst
  obtain ⟨hoffset', hlength'⟩ := formulaOf_span hsecond
  rw [Replacement.Apart, Replacement.stop, Replacement.stop, hoffset, hlength, hoffset', hlength']
  exact hapart

/-- Two formulas that touch, and parts of which one is removed. -/
theorem mapRichTextOffsetToEditorOffset_two :
    MapsOffsets
      (formulasOf ⟨[0x61, 0xFFFC, 0xFFFC], [formulaEntity 1 ['x'], formulaEntity 2 ['y']]⟩)
      [0x61, 0xFFFC, 0xFFFC]
      (convertRichTextToEditorTags mathUtilities
        ⟨[0x61, 0xFFFC, 0xFFFC], [formulaEntity 1 ['x'], formulaEntity 2 ['y']]⟩).text.text
      (convertRichTextToEditorTags mathUtilities
        ⟨[0x61, 0xFFFC, 0xFFFC], [formulaEntity 1 ['x'], formulaEntity 2 ['y']]⟩).replacements ∧
    MapsOffsets [⟨0, 1, []⟩, ⟨1, 2, [0x78]⟩] [0x61, 0x62, 0x63]
      (replaceFormulas mathUtilities [⟨0, 1, []⟩, ⟨1, 2, [0x78]⟩]
        { text := [0x61, 0x62, 0x63], entities := [] }).text
      (sortReplacements (replaceFormulas mathUtilities [⟨0, 1, []⟩, ⟨1, 2, [0x78]⟩]
        { text := [0x61, 0x62, 0x63], entities := [] }).replacements) :=
  ⟨(mapRichTextOffsetToEditorOffset_spec mathUtilities).1
      ⟨[0x61, 0xFFFC, 0xFFFC], [formulaEntity 1 ['x'], formulaEntity 2 ['y']]⟩
      (formulasOf_apart (by simp [formulaEntity])),
    (mapRichTextOffsetToEditorOffset_spec mathUtilities).2 [⟨0, 1, []⟩, ⟨1, 2, [0x78]⟩]
      [0x61, 0x62, 0x63] [] (by simp) (by simp [Replacement.Apart, Replacement.stop])
      (by simp [Replacement.Fits, Replacement.stop])⟩

end Editor

end Iv

end MessengerClient
