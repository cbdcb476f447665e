import MessengerClient.Editor.TextEntities
import Mathlib

/-!
# MessengerClient.Editor.RoundTrip

From the editor back to rich texts, of `iv/editor/iv_editor_text_entities.cpp`: what is tagged as
a formula becomes one unit again, and its source an entity.

Where formulas stand is known in the editor by their tags only, and tags that touch become one: a
text of formulas comes back exactly if no two of them touch and no source begins with a byte order
mark, which the entity does not keep (`roundTrip_iff`).
-/

namespace MessengerClient

namespace Iv

namespace Editor

open Markdown Texts

section

variable (util : TextUtilities)

def tagContains (tags tagId : List Char) : Bool := (util.splitTags tags).contains tagId

def tagContainsOtherThan (tags tagId : List Char) : Bool := (util.splitTags tags).any (· ≠ tagId)

def rangesContainingTagId (tags : List Tag) (tagId : List Char) (text : Units) : List TextRange :=
  tags.filterMap fun tag =>
    if tag.length = 0 || !rangeInsideText text tag.offset tag.length
        || !tagContains util tag.id tagId then none
    else some ⟨tag.offset, tag.length⟩

def appendEntitiesForTagId (entities : List EntityInText) (tags : List Tag) (tagId : List Char)
    (type : EntityType) (text : Units) : List EntityInText :=
  entities ++ (rangesContainingTagId util tags tagId text).map fun range =>
    { type, offset := range.offset, length := range.length }

def validAnchorEntitiesFromTags (tags : List Tag) (text : Units) : List EntityInText :=
  tags.flatMap fun tag =>
    if tag.length = 0 || !rangeInsideText text tag.offset tag.length then []
    else
      (util.splitTags tag.id).filterMap fun link =>
        if !util.isInstantViewAnchorLink link then none
        else if normalizeFragmentId util.toolkit link = [] then none
        else some ⟨.CustomUrl, tag.offset, tag.length, link⟩

/-- The loop of `MergeRanges`, with the last range that was written. -/
def mergeLoop : TextRange → List TextRange → List TextRange
  | last, [] => [last]
  | last, range :: ranges =>
    let lastEnd := last.offset + last.length
    let rangeEnd := range.offset + range.length
    if range.offset > lastEnd then last :: mergeLoop range ranges
    else if rangeEnd > lastEnd then
      mergeLoop { last with length := rangeEnd - last.offset } ranges
    else mergeLoop last ranges

def rangeLess (a b : TextRange) : Bool :=
  if a.offset ≠ b.offset then a.offset < b.offset else a.length < b.length

def mergeRanges (ranges : List TextRange) : List TextRange :=
  match ranges.mergeSort fun a b => !rangeLess b a with
  | [] => []
  | range :: ranges => mergeLoop range ranges

def mathRangesWithoutIntersections (tags : List Tag) (text : Units) : List TextRange :=
  mergeRanges <| tags.flatMap fun math =>
    if math.length = 0 || !rangeInsideText text math.offset math.length
        || !tagContains util math.id util.kTagIvMath then []
    else
      tags.foldl (fun ranges other =>
        if other.length = 0 || !rangeInsideText text other.offset other.length
            || !tagContainsOtherThan util other.id util.kTagIvMath then ranges
        else subtractRange ranges other.offset (other.offset + other.length))
        [⟨math.offset, math.length⟩]

def entityLess (a b : EntityInText) : Bool :=
  if a.offset ≠ b.offset then a.offset < b.offset
  else if a.length ≠ b.length then a.length < b.length
  else if a.type ≠ b.type then util.typeValue a.type < util.typeValue b.type
  else util.less a.data b.data

def sortEntities (entities : List EntityInText) : List EntityInText :=
  entities.mergeSort fun a b => !entityLess util b a

/-- The body of the loop over the ranges of formulas. -/
def restoreFormula (range : TextRange) (text : TextWithEntities) : TextWithEntities :=
  let source := Utf16.decode ((text.text.drop range.offset).take range.length)
  let trimmedSource := stripDelimiters source
  if trimmedSource = [] then text
  else
    let entities := text.entities.filterMap fun entity =>
      adjustEntityForReplacement entity range.offset range.length 1
    { text :=
        Replacement.splice ⟨range.offset, range.length, [objectReplacementCharacter]⟩ text.text
      entities := entities ++ [⟨.CustomEmoji, range.offset, 1,
        serializeInlineTextObjectEntity (formulaObject trimmedSource)⟩] }

def convertEditorTagsToRichText (text : TextWithTags) : TextWithEntities :=
  let entities := util.convertTextTagsToEntities (genericTagsWithoutIvEditorTags util text.tags)
  let entities :=
    appendEntitiesForTagId util entities text.tags util.kTagIvMarked .Marked text.text
  let entities :=
    appendEntitiesForTagId util entities text.tags util.kTagIvSubscript .Subscript text.text
  let entities :=
    appendEntitiesForTagId util entities text.tags util.kTagIvSuperscript .Superscript text.text
  let entities := entities ++ validAnchorEntitiesFromTags util text.tags text.text
  let result := (mathRangesWithoutIntersections util text.tags text.text).foldr restoreFormula
    { text := text.text, entities }
  { result with entities := sortEntities util result.entities }

end

variable {util : TextUtilities} {formulas : List FormulaReplacement} {tags : List Tag}
  {tag : Tag} {text : Units} {start shift : Nat}

/-! ## Tags that are simplified -/

/-- Tags one behind the other, from `start` on. -/
def Spread : Nat → List Tag → Prop
  | _, [] => True
  | start, tag :: tags =>
    start ≤ tag.offset ∧ 0 < tag.length ∧ Spread (tag.offset + tag.length) tags

/-- Tags that are not made one. -/
def Separate (a b : Tag) : Prop := ¬(a.id = b.id ∧ a.offset + a.length = b.offset)

theorem Spread.mono {start' : Nat} (h : Spread start tags) (hle : start' ≤ start) :
    Spread start' tags := by
  cases tags with
  | nil => trivial
  | cons tag tags => exact ⟨hle.trans h.1, h.2⟩

theorem Spread.le (h : Spread start tags) (htag : tag ∈ tags) :
    start ≤ tag.offset ∧ 0 < tag.length := by
  induction tags generalizing start with
  | nil => cases htag
  | cons first tags ih =>
    obtain rfl | htag := List.mem_cons.mp htag
    · exact ⟨h.1, h.2.1⟩
    · have hle := ih h.2.2 htag
      have hfirst := h.1
      omega

theorem Spread.sorted (h : Spread start tags) : tags.Pairwise (·.offset < ·.offset) := by
  induction tags generalizing start with
  | nil => exact List.Pairwise.nil
  | cons tag tags ih =>
    refine List.pairwise_cons.mpr ⟨fun other hother => ?_, ih h.2.2⟩
    have hle := h.2.2.le hother
    have hlength := h.2.1
    omega

theorem sortTags_of_spread (h : Spread start tags) : sortTags util tags = tags := by
  refine List.mergeSort_of_pairwise (h.sorted.imp fun {a b} hlt => ?_)
  rw [tagLess, if_pos (Nat.ne_of_gt hlt)]
  simpa using hlt.le

theorem spread_simplifyTags (h : Spread start tags) : Spread start (simplifyTags tags) := by
  induction tags generalizing start with
  | nil => trivial
  | cons tag tags ih =>
    have hrest := ih h.2.2
    rw [simplifyTags]
    split
    · exact ⟨h.1, h.2.1, trivial⟩
    · next next rest heq =>
      rw [heq] at hrest
      split
      · next htouch =>
        refine ⟨h.1, Nat.add_pos_left h.2.1 _, ?_⟩
        rw [← Nat.add_assoc, htouch.2]
        exact hrest.2.2
      · exact ⟨h.1, h.2.1, hrest⟩

/-- **Of tags that were simplified** no two are to be made one. -/
theorem simplifyTags_separate (tags : List Tag) : (simplifyTags tags).IsChain Separate := by
  induction tags with
  | nil => exact List.IsChain.nil
  | cons tag tags ih =>
    rw [simplifyTags]
    split
    · exact List.IsChain.singleton _
    · next next rest heq =>
      rw [heq] at ih
      split
      · next htouch =>
        obtain ⟨hid, hend⟩ := htouch
        cases rest with
        | nil => exact List.IsChain.singleton _
        | cons second rest =>
          rw [List.isChain_cons_cons] at ih ⊢
          refine ⟨fun hsame => ih.1 ?_, ih.2⟩
          -- the tag ends where the one that was added to it does
          rw [← hid, ← hend, Nat.add_assoc]
          exact hsame
      · next hapart => exact List.IsChain.cons_cons hapart ih

theorem simplifyTags_of_separate (h : tags.IsChain Separate) : simplifyTags tags = tags := by
  induction tags with
  | nil => rfl
  | cons tag tags ih =>
    rw [simplifyTags]
    cases tags with
    | nil => rfl
    | cons next rest =>
      rw [List.isChain_cons_cons] at h
      rw [ih h.2]
      exact if_neg h.1

@[simp] theorem simplifyTags_simplifyTags (tags : List Tag) :
    simplifyTags (simplifyTags tags) = simplifyTags tags :=
  simplifyTags_of_separate (simplifyTags_separate tags)

theorem simplifyTags_cons_simplifyTags (tag : Tag) (tags : List Tag) :
    simplifyTags (tag :: simplifyTags tags) = simplifyTags (tag :: tags) := by
  rw [simplifyTags, simplifyTags_simplifyTags, simplifyTags]

theorem length_simplifyTags_le (tags : List Tag) : (simplifyTags tags).length ≤ tags.length := by
  induction tags with
  | nil => exact le_rfl
  | cons tag tags ih =>
    rw [simplifyTags]
    split
    · simp
    · next next rest heq =>
      rw [heq] at ih
      split
      · exact ih.trans (Nat.le_succ _)
      · exact Nat.succ_le_succ ih

/-- Tags of which two touch become fewer. -/
theorem length_simplifyTags_lt (h : ¬tags.IsChain Separate) :
    (simplifyTags tags).length < tags.length := by
  induction tags with
  | nil => exact absurd List.IsChain.nil h
  | cons tag tags ih =>
    have hle := length_simplifyTags_le tags
    by_cases htags : tags.IsChain Separate
    · cases tags with
      | nil => exact absurd (List.IsChain.singleton _) h
      | cons next rest =>
        rw [List.isChain_cons_cons, not_and_or] at h
        obtain htouch | hrest := h
        · rw [Separate, not_not] at htouch
          rw [simplifyTags, simplifyTags_of_separate htags]
          simp only [if_pos htouch]
          exact Nat.lt_succ_self _
        · exact absurd htags hrest
    · have hlt := ih htags
      rw [simplifyTags]
      split
      · next heq =>
        rw [heq] at hlt
        exact Nat.succ_lt_succ hlt
      · next next rest heq =>
        rw [heq] at hlt
        split
        · exact hlt.trans (Nat.lt_succ_self _)
        · exact Nat.succ_lt_succ hlt

theorem mem_simplifyTags {id : List Char} (h : ∀ tag ∈ tags, tag.id = id) :
    ∀ tag ∈ simplifyTags tags, tag.id = id := by
  induction tags with
  | nil => simp [simplifyTags]
  | cons tag tags ih =>
    obtain ⟨htag, htags⟩ := List.forall_mem_cons.mp h
    have hrest := ih htags
    rw [simplifyTags]
    split
    · simpa using htag
    · next next rest heq =>
      rw [heq, List.forall_mem_cons] at hrest
      split
      · exact List.forall_mem_cons.mpr ⟨htag, hrest.2⟩
      · exact List.forall_mem_cons.mpr ⟨htag, List.forall_mem_cons.mpr hrest⟩

/-! ## Tags of formulas -/

/-- Where the tags end. -/
def Inside (text : Units) (tags : List Tag) : Prop :=
  ∀ tag ∈ tags, tag.offset + tag.length ≤ text.length

theorem inside_simplifyTags (h : Inside text tags) : Inside text (simplifyTags tags) := by
  induction tags with
  | nil => exact h
  | cons tag tags ih =>
    obtain ⟨htag, htags⟩ := List.forall_mem_cons.mp h
    have hrest := ih htags
    rw [simplifyTags]
    split
    · simpa [Inside] using htag
    · next next rest heq =>
      rw [heq] at hrest
      obtain ⟨hnext, hrest⟩ := List.forall_mem_cons.mp hrest
      split
      · next htouch =>
        refine List.forall_mem_cons.mpr ⟨?_, hrest⟩
        rw [← Nat.add_assoc, htouch.2]
        exact hnext
      · exact List.forall_mem_cons.mpr ⟨htag, List.forall_mem_cons.mpr ⟨hnext, hrest⟩⟩

theorem rangeInsideText_iff {offset length : Nat} :
    rangeInsideText text offset length ↔ offset + length ≤ text.length := by
  simp only [rangeInsideText, Bool.and_eq_true, decide_eq_true_eq]
  omega

/-- A tag before the others stays what it is. -/
theorem overlayLoop_before (hlength : 0 < tag.length) (h : Spread (tag.offset + tag.length) tags) :
    overlayLoop util tag tag.offset tags = tag :: tags := by
  have hcovered : ∀ tags, Spread (tag.offset + tag.length) tags →
      overlayLoop util tag (tag.offset + tag.length) tags = tags := by
    intro tags h
    induction tags with
    | nil => simp [overlayLoop]
    | cons next tags ih =>
      obtain ⟨hnext, hpos, hrest⟩ := h
      rw [overlayLoop, if_neg (by omega), if_pos hnext, if_neg (lt_irrefl _),
        ih (hrest.mono (by omega))]
  cases tags with
  | nil =>
    rw [overlayLoop, if_pos (by omega), Nat.add_sub_cancel_left]
  | cons next tags =>
    obtain ⟨hnext, hpos, hrest⟩ := h
    rw [overlayLoop, if_neg (by omega), if_pos hnext, if_pos (by omega),
      hcovered tags (hrest.mono (by omega)), Nat.add_sub_cancel_left]

/-- **Tags that are laid over nothing** from the last one on are simplified. -/
theorem overlayTags_reverse (h : Spread start tags) (hid : ∀ tag ∈ tags, tag.id ≠ [])
    (hinside : Inside text tags) :
    overlayTags util [] tags.reverse text = simplifyTags tags := by
  rw [overlayTags, List.foldl_reverse]
  induction tags generalizing start with
  | nil => rfl
  | cons tag tags ih =>
    obtain ⟨hid', hids⟩ := List.forall_mem_cons.mp hid
    obtain ⟨hend, hends⟩ := List.forall_mem_cons.mp hinside
    have hlength := h.2.1
    have hspread : Spread start (tag :: simplifyTags tags) :=
      ⟨h.1, hlength, spread_simplifyTags h.2.2⟩
    have hrange : rangeInsideText text tag.offset tag.length := rangeInsideText_iff.mpr hend
    rw [List.foldr_cons, ih h.2.2 hids hends, overlayTag, if_neg (by simp [*, Nat.ne_of_gt]),
      overlayLoop_before hlength hspread.2.2, sortTags_of_spread hspread,
      simplifyTags_cons_simplifyTags]

/-- The tags that formulas of one unit have in the editor, if what is before them became longer by
`shift`. -/
def tagsFrom (id : List Char) : Nat → List FormulaReplacement → List Tag
  | _, [] => []
  | shift, formula :: formulas =>
    ⟨formula.offset + shift, formula.source.length, id⟩
      :: tagsFrom id (shift + (formula.source.length - 1)) formulas

/-- Formulas of one unit. -/
def OneUnit (formulas : List FormulaReplacement) : Prop :=
  ∀ formula ∈ formulas, formula.length = 1 ∧ 0 < formula.source.length

theorem tagsFrom_map (id : List Char) (shift by_ : Nat) (formulas : List FormulaReplacement) :
    (tagsFrom id shift formulas).map (fun tag => { tag with offset := tag.offset + by_ }) =
      tagsFrom id (shift + by_) formulas := by
  induction formulas generalizing shift with
  | nil => rfl
  | cons formula formulas ih =>
    rw [tagsFrom, List.map_cons, ih, tagsFrom, Nat.add_right_comm shift, Nat.add_assoc]

theorem spread_tagsFrom (id : List Char) (h : Replacement.Ascending start formulas)
    (hunit : OneUnit formulas) : Spread (start + shift) (tagsFrom id shift formulas) := by
  induction formulas generalizing start shift with
  | nil => trivial
  | cons formula formulas ih =>
    obtain ⟨⟨hlength, hpos⟩, hrest⟩ := List.forall_mem_cons.mp hunit
    refine ⟨Nat.add_le_add_right h.1 _, hpos, (ih h.2.2 hrest).mono ?_⟩
    rw [Replacement.stop]
    simp only
    omega

theorem id_of_mem_tagsFrom {id : List Char} (h : tag ∈ tagsFrom id shift formulas) :
    tag.id = id := by
  induction formulas generalizing shift with
  | nil => cases h
  | cons formula formulas ih =>
    obtain rfl | h := List.mem_cons.mp h
    · rfl
    · exact ih h

@[simp] theorem length_tagsFrom (id : List Char) (shift : Nat)
    (formulas : List FormulaReplacement) :
    (tagsFrom id shift formulas).length = formulas.length := by
  induction formulas generalizing shift with
  | nil => rfl
  | cons formula formulas ih => rw [tagsFrom, List.length_cons, ih, List.length_cons]

/-- Tags of formulas touch where the formulas do. -/
theorem tagsFrom_separate_iff (id : List Char) (hunit : OneUnit formulas) :
    (tagsFrom id shift formulas).IsChain Separate ↔
      formulas.IsChain fun a b => a.stop ≠ b.offset := by
  induction formulas generalizing shift with
  | nil => simp [tagsFrom]
  | cons formula formulas ih =>
    obtain ⟨⟨hlength, hpos⟩, hrest⟩ := List.forall_mem_cons.mp hunit
    cases formulas with
    | nil => simp [tagsFrom]
    | cons next formulas =>
      have hnext := @ih (shift + (formula.source.length - 1)) hrest
      rw [tagsFrom] at hnext ⊢
      rw [tagsFrom, List.isChain_cons_cons, List.isChain_cons_cons, hnext]
      refine and_congr_left fun _ => not_congr ?_
      simp only [true_and, Replacement.stop]
      omega

/-- What the loop does to the tags that are behind a formula. -/
theorem filterMap_adjustTag {length newLength : Nat} (h : Spread (start + length) tags)
    (hlength : length ≤ newLength) (hpos : 0 < length) :
    tags.filterMap (fun tag => adjustTagForReplacement tag start length newLength) =
      tags.map fun tag => { tag with offset := tag.offset + (newLength - length) } := by
  rw [← List.filterMap_eq_map]
  refine List.filterMap_congr fun tag htag => ?_
  have hle := h.le htag
  rw [adjustTagForReplacement]
  simp only
  rw [if_neg (by omega), if_pos hle.1, Function.comp_apply, Nat.add_sub_assoc hlength]

/-- The loop over the formulas, from the back. -/
theorem foldr_replace (id : List Char) (hid : util.kTagIvMath = id) {loop : FormulaLoop}
    (hloop : loop.mathTags = []) (hentities : loop.entities = [])
    (h : Replacement.Ascending start formulas) (hunit : OneUnit formulas) :
    (formulas.foldr (fun formula loop => loop.replace util formula) loop).mathTags =
        (tagsFrom id 0 formulas).reverse ∧
      (formulas.foldr (fun formula loop => loop.replace util formula) loop).entities = [] := by
  induction formulas generalizing start with
  | nil => exact ⟨hloop, hentities⟩
  | cons formula formulas ih =>
    obtain ⟨⟨hlength, hpos⟩, hrest⟩ := List.forall_mem_cons.mp hunit
    obtain ⟨htags, hentities⟩ := ih h.2.2 hrest
    have hspread : Spread (formula.offset + formula.length) (tagsFrom id 0 formulas) :=
      @spread_tagsFrom formulas formula.stop 0 id h.2.2 hrest
    rw [List.foldr_cons, FormulaLoop.replace, htags, hentities]
    refine ⟨?_, rfl⟩
    simp only [gt_iff_lt, if_pos hpos]
    rw [List.filterMap_reverse, filterMap_adjustTag hspread (by omega) (by omega), tagsFrom_map,
      tagsFrom, List.reverse_cons, hid, hlength]
    rfl

/-- A text with no entities but formulas. -/
structure FormulasOnly (text : TextWithEntities) : Prop where
  formula : ∀ entity ∈ text.entities, ∃ data, formulaDataFromEntity entity = some data ∧
    isFormulaObjectSpan text.text entity ∧ data.trimmedTex ≠ [] ∧
    trimmed data.trimmedTex = data.trimmedTex ∧ '$' ∉ data.trimmedTex
  nodup : (text.entities.map (·.offset)).Nodup

/-- The formula that stands in the editor for a source. -/
def texOf (formula : FormulaReplacement) : List Char :=
  stripDelimiters (Utf16.decode formula.source)

theorem stripDelimiters_of_trimmed {tex : List Char} (htrimmed : trimmed tex = tex)
    (hdollar : '$' ∉ tex) : stripDelimiters tex = tex := by
  rw [stripDelimiters, htrimmed]
  refine if_neg fun h => hdollar ?_
  exact List.mem_of_mem_head? (Option.mem_def.mpr h.2.1)

theorem stripDelimiters_copySource {tex : List Char} (htrimmed : trimmed tex = tex) :
    stripDelimiters (inlineFormulaCopySource tex) = tex := by
  have hsource : inlineFormulaCopySource tex = '$' :: (tex ++ ['$']) := rfl
  have hspace : isSpace '$' = false := by decide
  have hall : trimmed ('$' :: (tex ++ ['$'])) = '$' :: (tex ++ ['$']) := by
    rw [trimmed, List.dropWhile_cons_of_neg (by simp [hspace]), ← List.cons_append,
      List.rdropWhile_concat_neg _ _ _ (by simp [hspace])]
  have hlast : ('$' :: (tex ++ ['$'])).getLast? = some '$' := by
    rw [← List.cons_append, List.getLast?_concat]
  rw [stripDelimiters, hsource, hall, if_pos ⟨by simp, rfl, hlast⟩]
  simpa using htrimmed

/-- What a formula of such a text is replaced by. -/
theorem formulaOf_eq {text : TextWithEntities} (h : FormulasOnly text) {entity : EntityInText}
    (hentity : entity ∈ text.entities) :
    ∃ data formula, formulaDataFromEntity entity = some data ∧ data.trimmedTex ≠ [] ∧
      formulaOf text.text entity = some formula ∧ formula.offset = entity.offset ∧
      formula.length = 1 ∧ entity.length = 1 ∧ texOf formula = data.trimmedTex ∧
      formula.source = Utf16.encode (inlineFormulaCopySource data.trimmedTex) ∧
      text.text[formula.offset]? = some objectReplacementCharacter := by
  obtain ⟨data, hdata, hspan, hne, htrimmed, hdollar⟩ := h.formula entity hentity
  have hsource : editorSourceForFormula data =
      Utf16.encode (inlineFormulaCopySource data.trimmedTex) := by
    rw [editorSourceForFormula, if_pos hne, stripDelimiters_of_trimmed htrimmed hdollar]
  have hformula : formulaOf text.text entity =
      some ⟨entity.offset, entity.length, editorSourceForFormula data⟩ := by
    simp only [formulaOf, hdata, if_pos hspan]
  simp only [isFormulaObjectSpan, Bool.and_eq_true, decide_eq_true_eq] at hspan
  refine ⟨data, _, hdata, hne, hformula, rfl, hspan.1.1, hspan.1.1, ?_, hsource, hspan.2⟩
  rw [texOf, hsource, Utf16.decode_encode, stripDelimiters_copySource htrimmed]

/-- What is known of the formulas of a text, the first one first. -/
structure AscendingUnits (text : Units) (formulas : List FormulaReplacement) : Prop where
  ascending : Replacement.Ascending 0 formulas
  units : OneUnit formulas
  character : ∀ formula ∈ formulas, text[formula.offset]? = some objectReplacementCharacter
  tex : ∀ formula ∈ formulas, texOf formula ≠ []

theorem formulasOf_units {text : TextWithEntities} (h : FormulasOnly text) :
    AscendingUnits text.text (ascending (formulasOf text)) := by
  have hperm := ascending_perm (formulasOf text)
  have hmem : ∀ formula ∈ formulasOf text, (formula.length = 1 ∧ 0 < formula.source.length) ∧
      text.text[formula.offset]? = some objectReplacementCharacter ∧ texOf formula ≠ [] := by
    intro formula hformula
    obtain ⟨entity, hentity, hof⟩ := List.mem_filterMap.mp hformula
    obtain ⟨data, formula', -, hne, hof', -, hlength, -, htex, hsource, hchar⟩ :=
      formulaOf_eq h hentity
    rw [hof] at hof'
    obtain rfl := Option.some_inj.mp hof'
    refine ⟨⟨hlength, ?_⟩, hchar, htex ▸ hne⟩
    rw [hsource]
    refine Nat.lt_of_lt_of_le ?_ (Utf16.length_le_encode _)
    simp [inlineFormulaCopySource]
  have hapart : (formulasOf text).Pairwise Replacement.Apart := by
    refine formulasOf_apart ?_
    have hlength : ∀ entity ∈ text.entities, entity.length = 1 := fun entity hentity => by
      obtain ⟨_, _, _, _, _, _, _, hlength, _⟩ := formulaOf_eq h hentity
      exact hlength
    refine (List.pairwise_map.mp h.nodup).imp_of_mem fun {a b} ha hb hne => ?_
    rw [hlength a ha, hlength b hb]
    omega
  constructor
  · refine ascending_of_apart (fun formula hformula => ?_) hapart
    rw [(hmem formula hformula).1.1]
    exact Nat.one_pos
  · exact fun formula hformula => (hmem formula (hperm.mem_iff.mpr hformula)).1
  · exact fun formula hformula => (hmem formula (hperm.mem_iff.mpr hformula)).2.1
  · exact fun formula hformula => (hmem formula (hperm.mem_iff.mpr hformula)).2.2

theorem AscendingUnits.fits {text : Units} (h : AscendingUnits text formulas) :
    Replacement.Fits formulas text := by
  intro formula hformula
  have hlt := (List.getElem?_eq_some_iff.mp (h.character formula hformula)).1
  rw [Replacement.stop, (h.units formula hformula).1]
  exact hlt

/-- Where the last formula ends when they are all replaced. -/
theorem inside_tagsFrom (id : List Char) {front : Units}
    (h : Replacement.Ascending start formulas) (hunit : OneUnit formulas)
    (hfits : Replacement.Fits formulas text) (hfront : front.length = start + shift) :
    Inside (front ++ Replacement.expandFrom formulas text start text.length)
      (tagsFrom id shift formulas) := by
  induction formulas generalizing start shift front with
  | nil => simp [Inside, tagsFrom]
  | cons formula formulas ih =>
    obtain ⟨⟨hlength, hpos⟩, hrest⟩ := List.forall_mem_cons.mp hunit
    obtain ⟨hstop, hstops⟩ := List.forall_mem_cons.mp hfits
    have hbefore : ((text.drop start).take (formula.offset - start)).length =
        formula.offset - start := by
      rw [Replacement.stop] at hstop
      rw [List.length_take_of_le]
      rw [List.length_drop]
      omega
    have hstart := h.1
    have hfront' : (front ++ ((text.drop start).take (formula.offset - start)
        ++ formula.source)).length = formula.stop + (shift + (formula.source.length - 1)) := by
      rw [List.length_append, List.length_append, hbefore, Replacement.stop]
      omega
    have hins := @ih formula.stop _ _ h.2.2 hrest hstops hfront'
    rw [Replacement.expandFrom_cons h hstop]
    refine List.forall_mem_cons.mpr ⟨?_, ?_⟩
    · simp only [List.length_append, hbefore]
      omega
    · rw [← List.append_assoc]
      exact hins

/-- **What the editor has of a text of formulas**: their sources, and what is left of their tags
when they are simplified. -/
theorem convertRichTextToEditorTags_formulas {text : TextWithEntities} (h : FormulasOnly text) :
    (convertRichTextToEditorTags util text).text =
      { text := Replacement.expandFrom (ascending (formulasOf text)) text.text 0 text.text.length
        tags := simplifyTags (tagsFrom util.kTagIvMath 0 (ascending (formulasOf text))) } := by
  have hunits := formulasOf_units h
  have hentities :
      (text.entities.filter fun entity => (formulaOf text.text entity).isNone) = [] := by
    refine List.filter_eq_nil_iff.mpr fun entity hentity => ?_
    obtain ⟨_, _, _, _, hof, _⟩ := formulaOf_eq h hentity
    simp [hof]
  have htext := @replaceFormulas_text util (formulasOf text) { text := text.text, entities := [] }
  obtain ⟨htags, hnone⟩ := @foldr_replace util _ 0 util.kTagIvMath rfl
    { text := text.text, entities := [] } rfl rfl hunits.ascending hunits.units
  have hfold : replaceFormulas util (formulasOf text) { text := text.text, entities := [] } =
      (ascending (formulasOf text)).foldr (fun formula loop => loop.replace util formula)
        { text := text.text, entities := [] } := by
    rw [replaceFormulas, List.foldl_eq_foldr_reverse]
    rfl
  have hspread := @spread_tagsFrom _ 0 0 util.kTagIvMath hunits.ascending hunits.units
  have hinside : Inside (Replacement.spliceAll (ascending (formulasOf text)) text.text)
      (tagsFrom util.kTagIvMath 0 (ascending (formulasOf text))) := by
    rw [Replacement.spliceAll_eq hunits.ascending hunits.fits]
    exact @inside_tagsFrom _ text.text 0 0 util.kTagIvMath [] hunits.ascending hunits.units
      hunits.fits rfl
  have hremoved : ∀ removed, removeRangesFromTags util [] removed = [] := by
    intro removed
    simp [removeRangesFromTags, sortTags, simplifyTags]
  have hover := @overlayTags_reverse util _ _ _ hspread
    (fun tag htag => id_of_mem_tagsFrom htag ▸ util.math_ne_nil) hinside
  rw [convertRichTextToEditorTags, hentities]
  rw [← hfold] at htags hnone
  simp only [htext, htags, hnone, util.convertEntitiesToTextTags_nil, hremoved]
  have hiv : appendIvEntityTags util [] [] = [] := rfl
  have hnothing : overlayTags util [] [] (Replacement.spliceAll (ascending (formulasOf text))
      text.text) = [] := rfl
  rw [hiv, hremoved, hnothing, hover, sortTags_of_spread (spread_simplifyTags hspread),
    simplifyTags_simplifyTags, Replacement.spliceAll_eq hunits.ascending hunits.fits]
  rfl

/-! ## From tags of formulas -/

/-- The range of a tag. -/
def rangeOf (tag : Tag) : TextRange := ⟨tag.offset, tag.length⟩

theorem mergeRanges_of_sorted {ranges : List TextRange}
    (h : ranges.Pairwise (·.offset < ·.offset)) :
    ranges.mergeSort (fun a b => !rangeLess b a) = ranges := by
  refine List.mergeSort_of_pairwise (h.imp fun {a b} hlt => ?_)
  rw [rangeLess, if_pos (Nat.ne_of_gt hlt)]
  simpa using hlt.le

theorem length_mergeLoop_le (last : TextRange) (ranges : List TextRange) :
    (mergeLoop last ranges).length ≤ ranges.length + 1 := by
  induction ranges generalizing last with
  | nil => exact le_rfl
  | cons range ranges ih =>
    rw [mergeLoop]
    split
    · exact Nat.succ_le_succ (ih range)
    · split
      · exact (ih _).trans (Nat.le_succ _)
      · exact (ih _).trans (Nat.le_succ _)

theorem length_mergeRanges_le (ranges : List TextRange) :
    (mergeRanges ranges).length ≤ ranges.length := by
  have hlength : (ranges.mergeSort fun a b => !rangeLess b a).length = ranges.length :=
    List.length_mergeSort _
  rw [mergeRanges]
  split
  · exact Nat.zero_le _
  · next range rest heq =>
    rw [heq, List.length_cons] at hlength
    rw [← hlength]
    exact length_mergeLoop_le range rest

/-- Ranges of tags that do not touch stay what they are. -/
theorem mergeLoop_of_separate (h : Spread start (tag :: tags))
    (hchain : (tag :: tags).IsChain fun a b => a.offset + a.length ≠ b.offset) :
    mergeLoop (rangeOf tag) (tags.map rangeOf) = (tag :: tags).map rangeOf := by
  induction tags generalizing tag start with
  | nil => rfl
  | cons next tags ih =>
    obtain ⟨hne, hrest⟩ := List.isChain_cons_cons.mp hchain
    have hle := h.2.2.1
    rw [List.map_cons, mergeLoop]
    simp only [rangeOf, gt_iff_lt]
    rw [if_pos (Nat.lt_of_le_of_ne hle hne)]
    have hloop := ih h.2.2 hrest
    rw [List.map_cons, List.cons.injEq]
    exact ⟨rfl, hloop⟩

theorem mergeRanges_of_separate (h : Spread start tags)
    (hchain : tags.IsChain fun a b => a.offset + a.length ≠ b.offset) :
    mergeRanges (tags.map rangeOf) = tags.map rangeOf := by
  have hsorted : (tags.map rangeOf).Pairwise (·.offset < ·.offset) :=
    List.pairwise_map.mpr h.sorted
  rw [mergeRanges, mergeRanges_of_sorted hsorted]
  cases tags with
  | nil => rfl
  | cons tag tags => exact mergeLoop_of_separate h hchain

/-- Tags that are known to be of formulas. -/
structure MathTags (util : TextUtilities) (text : Units) (tags : List Tag) : Prop where
  id : ∀ tag ∈ tags, tag.id = util.kTagIvMath
  inside : Inside text tags
  spread : Spread 0 tags

variable (htags : MathTags util text tags)
include htags

theorem MathTags.mathRanges :
    mathRangesWithoutIntersections util tags text = mergeRanges (tags.map rangeOf) := by
  have hother : ∀ other ∈ tags, tagContainsOtherThan util other.id util.kTagIvMath = false := by
    intro other hother
    rw [htags.id other hother, tagContainsOtherThan, util.splitTags_math]
    simp
  have hfold : ∀ (others : List Tag) (ranges : List TextRange), others ⊆ tags →
      others.foldl (fun ranges other =>
        if other.length = 0 || !rangeInsideText text other.offset other.length
            || !tagContainsOtherThan util other.id util.kTagIvMath then ranges
        else subtractRange ranges other.offset (other.offset + other.length)) ranges = ranges := by
    intro others ranges hsub
    induction others with
    | nil => rfl
    | cons other others ih =>
      obtain ⟨hmem, hrest⟩ := List.cons_subset.mp hsub
      rw [List.foldl_cons, if_pos (by simp [hother other hmem]), ih hrest]
  rw [mathRangesWithoutIntersections, List.map_eq_flatMap]
  congr 1
  refine List.flatMap_congr fun tag htag => ?_
  have hcontains : tagContains util tag.id util.kTagIvMath := by
    rw [htags.id tag htag, tagContains, util.splitTags_math]
    simp
  have hrange : rangeInsideText text tag.offset tag.length :=
    rangeInsideText_iff.mpr (htags.inside tag htag)
  have hlength := (htags.spread.le htag).2
  rw [if_neg (by simp [hcontains, hrange, Nat.ne_of_gt hlength]),
    hfold tags _ (List.Subset.refl _)]
  rfl

/-- Other tags are not there. -/
theorem MathTags.rangesContaining {tagId : List Char} (hne : util.kTagIvMath ≠ tagId) :
    rangesContainingTagId util tags tagId text = [] := by
  refine List.filterMap_eq_nil_iff.mpr fun tag htag => ?_
  have hcontains : tagContains util tag.id tagId = false := by
    rw [htags.id tag htag, tagContains, util.splitTags_math]
    simpa using hne.symm
  simp [hcontains]

theorem MathTags.anchors : validAnchorEntitiesFromTags util tags text = [] := by
  refine List.flatMap_eq_nil_iff.mpr fun tag htag => ?_
  rw [htags.id tag htag, util.splitTags_math]
  simp [util.isInstantViewAnchorLink_math]

theorem MathTags.generic : genericTagsWithoutIvEditorTags util tags = [] := by
  refine List.filterMap_eq_nil_iff.mpr fun tag htag => ?_
  have hfiltered : tagsWithoutIvEditorTags util tag.id = [] := by
    rw [htags.id tag htag, tagsWithoutIvEditorTags, util.splitTags_math]
    simp [util.isInstantViewEditorTag_math, util.joinTag_nil]
  simp [hfiltered]

/-- **What is read back from tags of formulas.** -/
theorem MathTags.convert : convertEditorTagsToRichText util ⟨text, tags⟩ =
    { text := ((mergeRanges (tags.map rangeOf)).foldr restoreFormula ⟨text, []⟩).text
      entities := sortEntities util
        ((mergeRanges (tags.map rangeOf)).foldr restoreFormula ⟨text, []⟩).entities } := by
  have hne := util.math_ne
  simp only [List.mem_cons, List.not_mem_nil, or_false, not_or] at hne
  obtain ⟨hmarked, hsub, hsuper⟩ := hne
  simp only [convertEditorTagsToRichText, htags.generic, util.convertTextTagsToEntities_nil,
    appendEntitiesForTagId, htags.rangesContaining hmarked, htags.rangesContaining hsub,
    htags.rangesContaining hsuper, htags.anchors, htags.mathRanges, List.map_nil, List.append_nil]

omit htags

theorem length_restoreFormula_le (range : TextRange) (text : TextWithEntities) :
    (restoreFormula range text).entities.length ≤ text.entities.length + 1 := by
  rw [restoreFormula]
  simp only
  split
  · exact Nat.le_succ _
  · rw [List.length_append]
    exact Nat.add_le_add_right (List.length_filterMap_le _ _) 1

/-- There is at most one entity for each range. -/
theorem length_foldr_restoreFormula_le (ranges : List TextRange) (text : TextWithEntities) :
    (ranges.foldr restoreFormula text).entities.length ≤
      text.entities.length + ranges.length := by
  induction ranges with
  | nil => exact le_rfl
  | cons range ranges ih =>
    have hle := length_restoreFormula_le range (ranges.foldr restoreFormula text)
    rw [List.foldr_cons, List.length_cons]
    omega

/-- The entity of a formula that is read back. -/
def restored (shift : Nat) (formula : FormulaReplacement) : EntityInText :=
  formulaEntity (formula.offset + shift) (texOf formula)

theorem adjustEntity_behind {entity : EntityInText} {from_ n : Nat} (hpos : 0 < n)
    (hbehind : from_ + n ≤ entity.offset) :
    adjustEntityForReplacement entity from_ n 1 =
      some { entity with offset := entity.offset + 1 - n } := by
  rw [adjustEntityForReplacement]
  simp only
  rw [if_neg (by omega), if_pos hbehind]

/-- What replacing a source does to the entities behind it. -/
theorem filterMap_adjustEntity {n : Nat} (hpos : 0 < n)
    (hbehind : ∀ formula ∈ formulas, start + 1 ≤ formula.offset) :
    (formulas.map (restored (shift + (n - 1)))).filterMap
        (fun entity => adjustEntityForReplacement entity (start + shift) n 1) =
      formulas.map (restored shift) := by
  rw [List.filterMap_map, ← List.filterMap_eq_map]
  refine List.filterMap_congr fun formula hformula => ?_
  have hle := hbehind formula hformula
  have hoffset : (restored (shift + (n - 1)) formula).offset =
      formula.offset + (shift + (n - 1)) := rfl
  have hback : formula.offset + (shift + (n - 1)) + 1 - n = formula.offset + shift := by omega
  rw [Function.comp_apply, Function.comp_apply,
    adjustEntity_behind hpos (by rw [hoffset]; omega), hoffset, hback]
  rfl

/-- The source of a range becomes an entity. -/
theorem restoreFormula_of_source {range : TextRange} {text : TextWithEntities} {source : Units}
    (hsource : (text.text.drop range.offset).take range.length = source)
    (hne : stripDelimiters (Utf16.decode source) ≠ []) :
    restoreFormula range text =
      { text :=
          Replacement.splice ⟨range.offset, range.length, [objectReplacementCharacter]⟩ text.text
        entities := (text.entities.filterMap fun entity =>
            adjustEntityForReplacement entity range.offset range.length 1)
          ++ [formulaEntity range.offset (stripDelimiters (Utf16.decode source))] } := by
  subst hsource
  exact if_neg hne

/-- **Sources are replaced by their entities from the back**: in a text that began with `front` and
of which the rest has its formulas replaced, they are all what they were. -/
theorem foldr_restoreFormula {front : Units} (h : Replacement.Ascending start formulas)
    (hunit : OneUnit formulas) (hfits : Replacement.Fits formulas text)
    (hchar : ∀ formula ∈ formulas, text[formula.offset]? = some objectReplacementCharacter)
    (htex : ∀ formula ∈ formulas, texOf formula ≠ []) (hfront : front.length = start + shift)
    (id : List Char) :
    ((tagsFrom id shift formulas).map rangeOf).foldr restoreFormula
        ⟨front ++ Replacement.expandFrom formulas text start text.length, []⟩ =
      ⟨front ++ text.drop start, (formulas.map (restored shift)).reverse⟩ := by
  induction formulas generalizing start shift front with
  | nil =>
    rw [Replacement.expandFrom_plain (by simp),
      List.take_of_length_le (by rw [List.length_drop])]
    rfl
  | cons formula formulas ih =>
    obtain ⟨⟨hlength, hpos⟩, hrest⟩ := List.forall_mem_cons.mp hunit
    obtain ⟨hstop, hstops⟩ := List.forall_mem_cons.mp hfits
    obtain ⟨hfirst, hchars⟩ := List.forall_mem_cons.mp hchar
    obtain ⟨hne, htexs⟩ := List.forall_mem_cons.mp htex
    have hstopEq : formula.stop = formula.offset + 1 := by rw [Replacement.stop, hlength]
    have hstart := h.1
    have hbefore : (front ++ (text.drop start).take (formula.offset - start)).length =
        formula.offset + shift := by
      rw [List.length_append, List.length_take_of_le (by rw [List.length_drop]; omega)]
      omega
    have hfront' : ((front ++ (text.drop start).take (formula.offset - start))
        ++ formula.source).length = formula.stop + (shift + (formula.source.length - 1)) := by
      rw [List.length_append, hbefore]
      omega
    have hrun := ih h.2.2 hrest hstops hchars htexs hfront'
    rw [Replacement.expandFrom_cons h hstop, ← List.append_assoc, ← List.append_assoc, tagsFrom,
      List.map_cons, List.foldr_cons, hrun]
    -- the source stands where the tag says
    have hsource : (((front ++ (text.drop start).take (formula.offset - start)) ++ formula.source
        ++ text.drop formula.stop).drop (formula.offset + shift)).take formula.source.length =
          formula.source := by
      rw [List.append_assoc, ← hbefore, List.drop_left, List.take_left]
    have hsplice : Replacement.splice
        ⟨formula.offset + shift, formula.source.length, [objectReplacementCharacter]⟩
        ((front ++ (text.drop start).take (formula.offset - start)) ++ formula.source
          ++ text.drop formula.stop) = front ++ text.drop start := by
      have hdrop : text.drop start = (text.drop start).take (formula.offset - start)
          ++ objectReplacementCharacter :: text.drop formula.stop := by
        obtain ⟨hlt, hget⟩ := List.getElem?_eq_some_iff.mp hfirst
        have hrestOf : (text.drop start).drop (formula.offset - start) =
            objectReplacementCharacter :: text.drop formula.stop := by
          rw [List.drop_drop, Nat.add_sub_cancel' hstart, List.drop_eq_getElem_cons hlt, hget,
            hstopEq]
        rw [← hrestOf, List.take_append_drop]
      rw [← hbefore, Replacement.splice_middle]
      conv_rhs => rw [hdrop]
      simp
    have hbehind : ∀ other ∈ formulas, formula.offset + 1 ≤ other.offset := by
      intro other hother
      rw [← hstopEq]
      exact h.2.2.offset_le hother
    have hentities := @filterMap_adjustEntity formulas formula.offset shift
      formula.source.length hpos hbehind
    rw [restoreFormula_of_source hsource hne]
    simp only [rangeOf]
    rw [hsplice, List.filterMap_reverse, hentities, List.map_cons, List.reverse_cons]
    rfl

include htags in
/-- There are at most as many formulas as there are tags. -/
theorem MathTags.length_convert_le :
    (convertEditorTagsToRichText util ⟨text, tags⟩).entities.length ≤ tags.length := by
  have hmerge := length_mergeRanges_le (tags.map rangeOf)
  have hrestore := length_foldr_restoreFormula_le (mergeRanges (tags.map rangeOf)) ⟨text, []⟩
  rw [htags.convert, sortEntities, List.length_mergeSort]
  rw [List.length_map] at hmerge
  rw [List.length_nil, Nat.zero_add] at hrestore
  exact hrestore.trans hmerge

/-! ## There and back -/

/-- What is to be kept of an entity: where it is, and its formula. -/
def shownOf (entity : EntityInText) : Nat × Nat × Option (List Char) :=
  (entity.offset, entity.length, (formulaDataFromEntity entity).map (·.trimmedTex))

/-- The same text with the same formulas in it. -/
def SameFormulas (a b : TextWithEntities) : Prop :=
  a.text = b.text ∧ (a.entities.map shownOf).Perm (b.entities.map shownOf)

/-- To the editor and back. -/
def throughEditor (util : TextUtilities) (text : TextWithEntities) : TextWithEntities :=
  convertEditorTagsToRichText util (convertRichTextToEditorTags util text).text

/-- No two formulas stand next to each other, and none begins with a byte order mark. -/
def Returns (text : TextWithEntities) : Prop :=
  (∀ a ∈ text.entities, ∀ b ∈ text.entities, a.offset + 1 ≠ b.offset) ∧
    ∀ entity ∈ text.entities, ∀ data, formulaDataFromEntity entity = some data →
      data.trimmedTex.head? ≠ some byteOrderMark

@[simp] theorem formulaDataFromEntity_formulaEntity (offset : Nat) (tex : List Char) :
    formulaDataFromEntity (formulaEntity offset tex) =
      some ⟨fromUtf8 (Utf8.encode (inlineFormulaCopySource tex)),
        fromUtf8 (Utf8.encode tex)⟩ := by
  have hparse := parse_serialize_eq (formulaObject_matches tex)
  simp only [formulaDataFromEntity, formulaEntity, hparse]
  rfl

/-- What an entity is when its source was written and read. -/
def readBack (entity : EntityInText) : Nat × Nat × Option (List Char) :=
  (entity.offset, entity.length,
    (formulaDataFromEntity entity).map fun data => fromUtf8 (Utf8.encode data.trimmedTex))

theorem shown_restored {text : TextWithEntities} (h : FormulasOnly text) :
    ((formulasOf text).map (restored 0)).map shownOf = text.entities.map readBack := by
  rw [formulasOf, List.map_filterMap, List.map_filterMap, ← List.filterMap_eq_map]
  refine List.filterMap_congr fun entity hentity => ?_
  obtain ⟨data, formula, hdata, -, hof, hoffset, -, hlength, htex, -⟩ := formulaOf_eq h hentity
  have hsame : (restored 0 formula).offset = entity.offset := hoffset
  have hone : (restored 0 formula).length = entity.length := hlength.symm
  rw [hof, Option.map_some, Option.map_some, Function.comp_apply, shownOf, readBack, hsame, hone,
    restored, formulaDataFromEntity_formulaEntity, hdata, Option.map_some, Option.map_some, htex]

/-- Lists that are told apart by a key are the same only if each of their elements is. -/
theorem perm_map_iff {α β κ : Type} {l : List α} {f g : α → β} (key : β → κ) (keyOf : α → κ)
    (hf : ∀ a, key (f a) = keyOf a) (hg : ∀ a, key (g a) = keyOf a)
    (hnodup : (l.map keyOf).Nodup) : (l.map f).Perm (l.map g) ↔ ∀ a ∈ l, f a = g a := by
  constructor
  · intro hperm a ha
    have hmem : g a ∈ l.map f := hperm.mem_iff.mpr (List.mem_map_of_mem ha)
    obtain ⟨b, hb, hbeq⟩ := List.mem_map.mp hmem
    have hkey : keyOf b = keyOf a := by rw [← hf, hbeq, hg]
    rw [← hbeq, List.inj_on_of_nodup_map hnodup hb ha hkey]
  · intro hall
    rw [List.map_congr_left hall]

theorem perm_readBack_iff {text : TextWithEntities} (h : FormulasOnly text) :
    (text.entities.map readBack).Perm (text.entities.map shownOf) ↔
      ∀ entity ∈ text.entities, ∀ data, formulaDataFromEntity entity = some data →
        data.trimmedTex.head? ≠ some byteOrderMark := by
  rw [perm_map_iff (·.1) (·.offset) (fun _ => rfl) (fun _ => rfl) h.nodup]
  refine forall₂_congr fun entity hentity => ?_
  obtain ⟨data, hdata, -⟩ := h.formula entity hentity
  rw [readBack, shownOf, hdata]
  simp [fromUtf8_encode_iff]

/-- Formulas one behind the other touch where neighbours do. -/
theorem isChain_stop_iff (h : Replacement.Ascending start formulas) :
    (formulas.IsChain fun a b => a.stop ≠ b.offset) ↔
      ∀ a ∈ formulas, ∀ b ∈ formulas, a.stop ≠ b.offset := by
  constructor
  · intro hchain
    induction formulas generalizing start with
    | nil => simp
    | cons formula formulas ih =>
      have hstop : formula.offset < formula.stop := Nat.lt_add_of_pos_right h.2.1
      have hrest := ih h.2.2 hchain.tail
      intro a hmem b hmem'
      obtain rfl | ha := List.mem_cons.mp hmem
      · obtain rfl | hb := List.mem_cons.mp hmem'
        · exact hstop.ne'
        · cases formulas with
          | nil => cases hb
          | cons next formulas =>
            -- the next one does not touch, and the others are behind it
            have hnext := (List.isChain_cons_cons.mp hchain).1
            have hle := h.2.2.1
            have hfirst : Replacement.Ascending next.offset (next :: formulas) :=
              ⟨le_rfl, h.2.2.2⟩
            have hbehind := hfirst.offset_le hb
            omega
      · obtain rfl | hb := List.mem_cons.mp hmem'
        · have hle := h.2.2.offset_le ha
          have hend : a.offset ≤ a.stop := Nat.le_add_right _ _
          omega
        · exact hrest a ha b hb
  · exact fun hall => (List.pairwise_of_forall_mem_list hall).isChain

/-- Formulas touch where their entities do. -/
theorem forall_stop_iff {text : TextWithEntities} (h : FormulasOnly text) :
    (∀ a ∈ ascending (formulasOf text), ∀ b ∈ ascending (formulasOf text), a.stop ≠ b.offset) ↔
      ∀ a ∈ text.entities, ∀ b ∈ text.entities, a.offset + 1 ≠ b.offset := by
  have hperm := ascending_perm (formulasOf text)
  constructor
  · intro hall a ha b hb
    obtain ⟨_, first, _, _, hfirst, hoffset, hlength, _⟩ := formulaOf_eq h ha
    obtain ⟨_, second, _, _, hsecond, hoffset', _⟩ := formulaOf_eq h hb
    have hne := hall first (hperm.mem_iff.mp (List.mem_filterMap.mpr ⟨a, ha, hfirst⟩))
      second (hperm.mem_iff.mp (List.mem_filterMap.mpr ⟨b, hb, hsecond⟩))
    rwa [Replacement.stop, hlength, hoffset, hoffset'] at hne
  · intro hall first hfirst second hsecond
    obtain ⟨a, ha, hof⟩ := List.mem_filterMap.mp (hperm.mem_iff.mpr hfirst)
    obtain ⟨b, hb, hof'⟩ := List.mem_filterMap.mp (hperm.mem_iff.mpr hsecond)
    obtain ⟨hoffset, hlength⟩ := formulaOf_span hof
    obtain ⟨hoffset', -⟩ := formulaOf_span hof'
    obtain ⟨_, _, _, _, _, _, _, hone, _⟩ := formulaOf_eq h ha
    rw [Replacement.stop, hlength, hone, hoffset, hoffset']
    exact hall a ha b hb

/-- What the editor has of a text of formulas has their tags only. -/
theorem mathTags_simplifyTags {text : TextWithEntities} (h : FormulasOnly text) :
    MathTags util (convertRichTextToEditorTags util text).text.text
      (convertRichTextToEditorTags util text).text.tags := by
  have hunits := formulasOf_units h
  rw [convertRichTextToEditorTags_formulas h]
  refine ⟨mem_simplifyTags fun tag htag => id_of_mem_tagsFrom htag, ?_, ?_⟩
  · exact inside_simplifyTags (@inside_tagsFrom _ text.text 0 0 util.kTagIvMath []
      hunits.ascending hunits.units hunits.fits rfl)
  · exact spread_simplifyTags (@spread_tagsFrom _ 0 0 util.kTagIvMath hunits.ascending hunits.units)

/-- **Where formulas touch** there are fewer of them when they come back. -/
theorem length_throughEditor_lt {text : TextWithEntities} (h : FormulasOnly text)
    (htouch : ¬(tagsFrom util.kTagIvMath 0 (ascending (formulasOf text))).IsChain Separate) :
    (throughEditor util text).entities.length < text.entities.length := by
  have htags := @mathTags_simplifyTags util text h
  have hlt := length_simplifyTags_lt htouch
  have hformulas : (ascending (formulasOf text)).length ≤ text.entities.length := by
    rw [← (ascending_perm (formulasOf text)).length_eq]
    exact List.length_filterMap_le _ _
  rw [convertRichTextToEditorTags_formulas h] at htags
  rw [length_tagsFrom] at hlt
  rw [throughEditor, convertRichTextToEditorTags_formulas h]
  exact (htags.length_convert_le.trans_lt hlt).trans_le hformulas

/-- **Formulas that do not touch** come back as they are read. -/
theorem throughEditor_of_separate {text : TextWithEntities} (h : FormulasOnly text)
    (hapart : (tagsFrom util.kTagIvMath 0 (ascending (formulasOf text))).IsChain Separate) :
    (throughEditor util text).text = text.text ∧
      ((throughEditor util text).entities.map shownOf).Perm (text.entities.map readBack) := by
  have hunits := formulasOf_units h
  have htags := @mathTags_simplifyTags util text h
  rw [convertRichTextToEditorTags_formulas h, simplifyTags_of_separate hapart] at htags
  have hchain := hapart.imp_of_mem_imp (S := fun a b => a.offset + a.length ≠ b.offset)
    fun a b ha hb hne hend => hne ⟨(htags.id a ha).trans (htags.id b hb).symm, hend⟩
  have hrun := @foldr_restoreFormula _ text.text 0 0 [] hunits.ascending hunits.units hunits.fits
    hunits.character hunits.tex rfl util.kTagIvMath
  have hconvert := htags.convert
  rw [mergeRanges_of_separate htags.spread hchain] at hconvert
  rw [List.nil_append, List.nil_append, List.drop_zero] at hrun
  rw [hrun] at hconvert
  rw [throughEditor, convertRichTextToEditorTags_formulas h, simplifyTags_of_separate hapart,
    hconvert]
  refine ⟨rfl, ?_⟩
  have hperm : (sortEntities util
      ((ascending (formulasOf text)).map (restored 0)).reverse).Perm
        ((formulasOf text).map (restored 0)) :=
    (List.mergeSort_perm _ _).trans
      ((List.reverse_perm _).trans ((ascending_perm (formulasOf text)).symm.map _))
  rw [← shown_restored h]
  exact hperm.map shownOf

/-- Tags of formulas touch where their entities do. -/
theorem separate_iff {text : TextWithEntities} (h : FormulasOnly text) :
    (tagsFrom util.kTagIvMath 0 (ascending (formulasOf text))).IsChain Separate ↔
      ∀ a ∈ text.entities, ∀ b ∈ text.entities, a.offset + 1 ≠ b.offset :=
  (tagsFrom_separate_iff util.kTagIvMath (formulasOf_units h).units).trans
    ((isChain_stop_iff (formulasOf_units h).ascending).trans (forall_stop_iff h))

theorem not_sameFormulas_of_length {a b : TextWithEntities}
    (h : a.entities.length < b.entities.length) : ¬SameFormulas a b := by
  rintro ⟨-, hperm⟩
  have hlength := hperm.length_eq
  simp only [List.length_map] at hlength
  omega

/-- **A text of formulas comes back from the editor** exactly if no two of them touch and none
begins with a byte order mark. -/
theorem roundTrip_iff (util : TextUtilities) (text : TextWithEntities) (h : FormulasOnly text) :
    SameFormulas (throughEditor util text) text ↔ Returns text := by
  rw [Returns, ← perm_readBack_iff h, ← @separate_iff util text h]
  constructor
  · intro hsame
    have hapart : (tagsFrom util.kTagIvMath 0 (ascending (formulasOf text))).IsChain Separate := by
      by_contra htouch
      exact not_sameFormulas_of_length (length_throughEditor_lt h htouch) hsame
    exact ⟨hapart, (throughEditor_of_separate h hapart).2.symm.trans hsame.2⟩
  · rintro ⟨hapart, hperm⟩
    obtain ⟨htext, hread⟩ := @throughEditor_of_separate util text h hapart
    exact ⟨htext, hread.trans hperm⟩

/-! ## Two formulas -/

theorem formulaEntity_formula {tex : List Char} {offset : Nat}
    (hmark : tex.head? ≠ some byteOrderMark)
    (hchar : text[offset]? = some objectReplacementCharacter) (hne : tex ≠ [])
    (htrimmed : trimmed tex = tex) (hdollar : '$' ∉ tex) :
    ∃ data, formulaDataFromEntity (formulaEntity offset tex) = some data ∧
      isFormulaObjectSpan text (formulaEntity offset tex) ∧ data.trimmedTex ≠ [] ∧
      trimmed data.trimmedTex = data.trimmedTex ∧ '$' ∉ data.trimmedTex := by
  refine ⟨_, formulaDataFromEntity_formulaEntity offset tex, ?_, ?_⟩
  · have hlt := (List.getElem?_eq_some_iff.mp hchar).1
    have hrange : rangeInsideText text offset 1 := rangeInsideText_iff.mpr hlt
    simp [isFormulaObjectSpan, formulaEntity, hrange, hchar]
  · rw [fromUtf8_encode_iff.mpr hmark]
    exact ⟨hne, htrimmed, hdollar⟩

/-- Two formulas with a letter between them. -/
def lettersApart : TextWithEntities :=
  ⟨[0xFFFC, 0x61, 0xFFFC], [formulaEntity 0 ['x'], formulaEntity 2 ['y']]⟩

theorem lettersApart_formulas : FormulasOnly lettersApart where
  formula := by
    simp only [lettersApart, List.mem_cons, List.not_mem_nil, or_false, forall_eq_or_imp, forall_eq]
    exact ⟨formulaEntity_formula (by decide) rfl (by decide) (by decide) (by decide),
      formulaEntity_formula (by decide) rfl (by decide) (by decide) (by decide)⟩
  nodup := by simp [lettersApart, formulaEntity]

/-- They come back. -/
theorem roundTrip_iff_apart :
    SameFormulas (throughEditor mathUtilities lettersApart) lettersApart := by
  refine (roundTrip_iff mathUtilities lettersApart lettersApart_formulas).mpr ⟨?_, ?_⟩
  · simp [lettersApart, formulaEntity]
  · simp only [lettersApart, List.mem_cons, List.not_mem_nil, or_false, forall_eq_or_imp, forall_eq,
      formulaDataFromEntity_formulaEntity, Option.some.injEq, forall_eq', fromUtf8_encode]
    decide

/-- Two formulas that touch. -/
def lettersTouch : TextWithEntities :=
  ⟨[0xFFFC, 0xFFFC], [formulaEntity 0 ['x'], formulaEntity 1 ['y']]⟩

/-- They come back as one. -/
theorem not_roundTrip : FormulasOnly lettersTouch ∧
    ¬SameFormulas (throughEditor mathUtilities lettersTouch) lettersTouch := by
  have h : FormulasOnly lettersTouch := by
    refine ⟨?_, by simp [lettersTouch, formulaEntity]⟩
    simp only [lettersTouch, List.mem_cons, List.not_mem_nil, or_false, forall_eq_or_imp, forall_eq]
    exact ⟨formulaEntity_formula (by decide) rfl (by decide) (by decide) (by decide),
      formulaEntity_formula (by decide) rfl (by decide) (by decide) (by decide)⟩
  refine ⟨h, not_sameFormulas_of_length (length_throughEditor_lt h ?_)⟩
  rw [separate_iff h]
  simp [lettersTouch, formulaEntity]

end Editor

end Iv

end MessengerClient
