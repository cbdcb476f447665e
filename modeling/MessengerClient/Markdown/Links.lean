import MessengerClient.Lib.Paths
import MessengerClient.Lib.Texts
import Mathlib

/-!
# MessengerClient.Markdown.Links

What the links of a document lead to, of `iv/markdown/iv_markdown_prepare_links.cpp`, where names
that differ in case are different files.

A link is a local file if its path, joined to the directory of the source and cleaned, is below that
directory.  Below is decided on lowercased texts, and the directory itself counts too: outside of
the root, only a path whose lowercased text is misjudged, or the directory, is a link to what is
not in it; in the root every path is refused (`classifiedLink_safe_iff`).

The target of a link is a text without surrogates; letters are of the basic plane.
-/

namespace MessengerClient

namespace Iv

namespace Markdown

open Paths Texts

/-- What Qt says of characters, of paths and of addresses. -/
structure Toolkit where
  isLetter : Char → Bool
  isLetterOrNumber : Char → Bool
  toLower : Char → List Char
  toCaseFolded : Char → Char
  /-- `QFileInfo(path).absolutePath()`. -/
  absolutePath : List Char → List Char
  /-- `UrlClickHandler::EncodeForOpening`. -/
  encodeForOpening : List Char → List Char
  /-- `QUrl(target).path(QUrl::FullyDecoded)`. -/
  urlPath : List Char → List Char
  isLetter_of_isAlpha : ∀ c, c.isAlpha → isLetter c
  isLetterOrNumber_of_isLetter : ∀ c, isLetter c → isLetterOrNumber c
  not_isLetterOrNumber : ∀ c ∈ [':', '/', '?', '#'], isLetterOrNumber c = false
  toLower_slash : toLower '/' = ['/']
  toLower_ne : ∀ c, c ≠ '/' → toLower c ≠ [] ∧ '/' ∉ toLower c
  isLetter_of_folded : ∀ c d, toCaseFolded c = toCaseFolded d → isLetter d → isLetter c
  eq_of_folded : ∀ c, toCaseFolded c = toCaseFolded ':' → c = ':'
  absolutePath_slash : ∀ path, (absolutePath path).head? = some '/'

inductive PreparedLinkKind where
  | External
  | InstantViewPage
  | Anchor
  | Footnote
  | FootnoteBacklink
  | LocalFile
  | RejectedRelative
  | ToggleDetails
deriving DecidableEq, Repr

inductive EntityType where
  | Invalid
  | Url
  | CustomUrl
  | Email
deriving DecidableEq, Repr

inductive EntityLinkShown where
  | Full
  | Partial
deriving DecidableEq, Repr

structure PreparedLink where
  index : UInt16 := 0
  kind : PreparedLinkKind := .External
  target : List Char := []
  fragment : List Char := []
  copyText : List Char := []
  entityType : EntityType := .Invalid
  shown : EntityLinkShown := .Full
deriving DecidableEq, Repr

structure MarkdownPrepareRequest where
  sourcePath : List Char

structure PrepareState where
  request : Option MarkdownPrepareRequest

variable (qt : Toolkit)

def lowered (text : List Char) : List Char := text.flatMap qt.toLower

def folded (text : List Char) : List Char := text.map qt.toCaseFolded

/-- `indexOf`. -/
def indexOf (text : List Char) (c : Char) : Option Nat := text.findIdx? (· = c)

/-- The loop over the characters that end a scheme. -/
def limitAt (target : List Char) (limit : Nat) (c : Char) : Nat :=
  match indexOf target c with
  | none => limit
  | some value => min limit value

def hasUrlScheme (target : List Char) : Bool :=
  match indexOf target ':' with
  | none => false
  | some colon =>
    if colon = 0 then false
    else if colon ≥ ['/', '?', '#'].foldl (limitAt target) target.length then false
    else if !(target.head?.any qt.isLetter) then false
    else
      ((target.take colon).drop 1).all fun ch =>
        qt.isLetterOrNumber ch || ch = '+' || ch = '-' || ch = '.'

def looksLikeWindowsDrivePath (target : List Char) : Bool :=
  target.length ≥ 2 && target.head?.any qt.isLetter && target[1]? = some ':'

def looksLikeFileUrl (target : List Char) : Bool :=
  target.length ≥ 5 && folded qt (target.take 5) = folded qt "file:".toList

def looksLikeFilesystemTarget (target : List Char) : Bool :=
  "/".toList.isPrefixOf target || "\\".toList.isPrefixOf target || "//".toList.isPrefixOf target
    || "\\\\".toList.isPrefixOf target || looksLikeWindowsDrivePath qt target
    || looksLikeFileUrl qt target

/-- Slashes are the native separators. -/
def comparablePath (path : List Char) : List Char := lowered qt (cleanPath path)

def isContainedPath (baseDirectory resolvedPath : List Char) : Bool :=
  let base := comparablePath qt baseDirectory
  let resolved := comparablePath qt resolvedPath
  resolved = base || (base ++ "/".toList).isPrefixOf resolved

/-- `endsWith(suffix, Qt::CaseInsensitive)`. -/
def endsWithFolded (text suffix : List Char) : Bool :=
  suffix.length ≤ text.length &&
    folded qt (text.drop (text.length - suffix.length)) = folded qt suffix

def looksLikeMarkdownFile (fileName mimeType : List Char) : Bool :=
  if !([".md".toList, ".markdown".toList].any (endsWithFolded qt fileName)) then false
  else if mimeType = [] then true
  else
    ["text/markdown".toList, "text/x-markdown".toList, "text/plain".toList].contains
      (lowered qt (trimmed mimeType))

def normalizeMailtoTarget (target : List Char) : List Char :=
  let path := qt.urlPath target
  let result :=
    if path = [] then
      let afterColon := (target.dropWhile (· ≠ ':')).tail
      fromUtf8 (percentDecode (Utf8.encode (afterColon.takeWhile (· ≠ '?'))))
    else path
  trimmed (result.dropWhile (· = '/'))

def normalizePreparedUrlLink (result : PreparedLink) (target : List Char) : PreparedLink :=
  if folded qt (target.take 7) = folded qt "mailto:".toList then
    let address := normalizeMailtoTarget qt target
    { result with
      fragment := [], target := address, copyText := address, entityType := .Email, shown := .Full }
  else
    let url := qt.encodeForOpening target
    { result with
      fragment := [], target := url, copyText := url, entityType := .Url, shown := .Full }

def normalizeFragmentId (fragment : List Char) : List Char :=
  (lowered qt (trimmed (fromUtf8 (percentDecode (Utf8.encode fragment))))).dropWhile (· = '#')

/-- The target before a number sign. -/
def pathPart (target : List Char) : List Char := target.takeWhile (· ≠ '#')

def fragmentPart (target : List Char) : List Char :=
  if '#' ∈ target then normalizeFragmentId qt (target.dropWhile (· ≠ '#')).tail else []

def classifiedLink (index : UInt16) (target : List Char) (state : Option PrepareState) :
    PreparedLink :=
  let result : PreparedLink := { index }
  if target.head? = some '#' then
    { result with kind := .Anchor, target := normalizeFragmentId qt (target.drop 1) }
  else if looksLikeFilesystemTarget qt target then { result with kind := .RejectedRelative }
  else if hasUrlScheme qt target then
    normalizePreparedUrlLink qt { result with kind := .External } target
  else
    let result := { result with fragment := fragmentPart qt target, target := pathPart target }
    let target := pathPart target
    if target = [] then
      { result with kind := .Anchor, target := result.fragment, fragment := [] }
    else
      match state.bind PrepareState.request with
      | none => { result with kind := .RejectedRelative }
      | some request =>
        if request.sourcePath = [] then { result with kind := .RejectedRelative }
        else if target.contains '?' then { result with kind := .RejectedRelative }
        else
          let baseDirectory := qt.absolutePath request.sourcePath
          if baseDirectory = [] then { result with kind := .RejectedRelative }
          else
            let cleanedResolved := cleanPath (join baseDirectory target)
            if !isContainedPath qt baseDirectory cleanedResolved
                || !looksLikeMarkdownFile qt cleanedResolved [] then
              { result with kind := .RejectedRelative }
            else { result with kind := .LocalFile, target := cleanedResolved }

/-! ## Targets -/

/-- A letter, letters, numbers and a few signs, and a colon. -/
def HasScheme (target : List Char) : Prop :=
  ∃ c scheme rest, target = c :: scheme ++ ':' :: rest ∧ qt.isLetter c ∧
    ∀ ch ∈ scheme, qt.isLetterOrNumber ch ∨ ch = '+' ∨ ch = '-' ∨ ch = '.'

def HasDrive (target : List Char) : Prop := ∃ c rest, target = c :: ':' :: rest ∧ qt.isLetter c

/-- Neither from the root, nor on a drive, nor an address. -/
structure IsRelative (target : List Char) : Prop where
  slash : target.head? ≠ some '/'
  backslash : target.head? ≠ some '\\'
  drive : ¬HasDrive qt target
  scheme : ¬HasScheme qt target

variable {qt} {target : List Char}

theorem indexOf_eq_none {text : List Char} {c : Char} (h : c ∉ text) : indexOf text c = none := by
  rw [indexOf, List.findIdx?_eq_none_iff]
  rintro ch hch
  simp only [decide_eq_false_iff_not]
  rintro rfl
  exact h hch

theorem indexOf_append {before after : List Char} {c : Char} (h : c ∉ before) :
    indexOf (before ++ c :: after) c = some before.length := by
  have hbefore := indexOf_eq_none h
  rw [indexOf] at hbefore ⊢
  rw [List.findIdx?_append, hbefore]
  simp [List.findIdx?_cons]

/-- The limit is behind an index that every one of the characters is behind. -/
theorem lt_limit_iff {cs : List Char} {colon start : Nat} :
    colon < cs.foldl (limitAt target) start ↔
      colon < start ∧ ∀ c ∈ cs, ∀ i, indexOf target c = some i → colon < i := by
  induction cs generalizing start with
  | nil => simp
  | cons c cs ih =>
    rw [List.foldl_cons, ih, limitAt]
    cases hindex : indexOf target c with
    | none => simp [hindex]
    | some i => simp [hindex, and_assoc]

/-- A character stands behind some others, or among them. -/
theorem length_lt_indexOf_iff {before rest : List Char} {c : Char} (hc : c ≠ ':') :
    (∀ i, indexOf (before ++ ':' :: rest) c = some i → before.length < i) ↔ c ∉ before := by
  constructor
  · intro h hmem
    obtain ⟨start, after, rfl, hstart⟩ := List.eq_append_cons_of_mem hmem
    have hlt := h start.length (by rw [List.append_assoc]; exact indexOf_append hstart)
    simp at hlt
  · intro hmem i hi
    by_cases hrest : c ∈ rest
    · obtain ⟨start, after, rfl, hstart⟩ := List.eq_append_cons_of_mem hrest
      have hnot : c ∉ before ++ ':' :: start := by simp [hmem, hc, hstart]
      have hindex : indexOf (before ++ ':' :: (start ++ c :: after)) c =
          some (before ++ ':' :: start).length := by
        have happend := @indexOf_append (before ++ ':' :: start) after c hnot
        rwa [List.append_assoc] at happend
      rw [hindex, List.length_append] at hi
      cases hi
      simp
    · have hnot : c ∉ before ++ ':' :: rest := by simp [hmem, hc, hrest]
      rw [indexOf_eq_none hnot] at hi
      cases hi

/-- The test, of what stands before the first colon. -/
theorem hasUrlScheme_append {before rest : List Char} (h : ':' ∉ before) :
    hasUrlScheme qt (before ++ ':' :: rest) ↔ ∃ c scheme, before = c :: scheme ∧ qt.isLetter c ∧
      (∀ ch ∈ ['/', '?', '#'], ch ∉ before) ∧
      ∀ ch ∈ scheme, qt.isLetterOrNumber ch ∨ ch = '+' ∨ ch = '-' ∨ ch = '.' := by
  have hlimit : before.length <
      ['/', '?', '#'].foldl (limitAt (before ++ ':' :: rest)) (before ++ ':' :: rest).length ↔
      ∀ ch ∈ ['/', '?', '#'], ch ∉ before := by
    rw [lt_limit_iff, and_iff_right (by simp)]
    refine forall₂_congr fun ch hch => length_lt_indexOf_iff ?_
    rintro rfl
    exact absurd hch (by decide)
  rw [hasUrlScheme, indexOf_append h]
  cases before with
  | nil => simp
  | cons c scheme =>
    have htake : ((c :: scheme ++ ':' :: rest).take (c :: scheme).length).drop 1 = scheme := by
      rw [List.take_left, List.drop_one, List.tail_cons]
    dsimp only
    rw [if_neg (by simp), htake]
    by_cases hlt : ∀ ch ∈ ['/', '?', '#'], ch ∉ c :: scheme
    · rw [if_neg (not_le.mpr (hlimit.mpr hlt))]
      cases hletter : qt.isLetter c with
      | false => simp [hletter]
      | true =>
        simp only [List.cons_append, List.head?_cons, Option.any_some, hletter, Bool.not_true,
          Bool.false_eq_true, if_false, List.all_eq_true, Bool.or_eq_true, decide_eq_true_eq,
          or_assoc, List.cons.injEq]
        constructor
        · intro h
          exact ⟨c, scheme, ⟨rfl, rfl⟩, hletter, hlt, h⟩
        · rintro ⟨_, _, ⟨rfl, rfl⟩, -, -, h⟩
          exact h
    · rw [if_pos (not_lt.mp (mt hlimit.mp hlt))]
      constructor
      · simp
      · rintro ⟨_, _, -, -, h, -⟩
        exact absurd h hlt

/-- What a scheme is made of is none of the characters that end it. -/
theorem not_mem_scheme {c : Char} {scheme : List Char} (hletter : qt.isLetter c)
    (hscheme : ∀ ch ∈ scheme, qt.isLetterOrNumber ch ∨ ch = '+' ∨ ch = '-' ∨ ch = '.')
    {ch : Char} (hch : ch ∈ [':', '/', '?', '#']) : ch ∉ c :: scheme := by
  have hnot := qt.not_isLetterOrNumber ch hch
  rw [List.mem_cons, not_or]
  constructor
  · rintro rfl
    rw [qt.isLetterOrNumber_of_isLetter ch hletter] at hnot
    cases hnot
  · intro hmem
    obtain hok | rfl | rfl | rfl := hscheme ch hmem
    · rw [hok] at hnot
      cases hnot
    all_goals exact absurd hch (by decide)

/-- **The test for an address.** -/
theorem hasUrlScheme_iff : hasUrlScheme qt target ↔ HasScheme qt target := by
  constructor
  · intro h
    by_cases hcolon : ':' ∈ target
    · obtain ⟨before, rest, rfl, hbefore⟩ := List.eq_append_cons_of_mem hcolon
      obtain ⟨c, scheme, rfl, hletter, -, hscheme⟩ := (hasUrlScheme_append hbefore).mp h
      exact ⟨c, scheme, rest, rfl, hletter, hscheme⟩
    · rw [hasUrlScheme, indexOf_eq_none hcolon] at h
      cases h
  · rintro ⟨c, scheme, rest, rfl, hletter, hscheme⟩
    rw [hasUrlScheme_append (not_mem_scheme hletter hscheme (by decide))]
    refine ⟨c, scheme, rfl, hletter, fun ch hch => ?_, hscheme⟩
    exact not_mem_scheme hletter hscheme (List.mem_cons_of_mem _ hch)

theorem looksLikeWindowsDrivePath_iff :
    looksLikeWindowsDrivePath qt target ↔ HasDrive qt target := by
  cases target with
  | nil => simp [looksLikeWindowsDrivePath, HasDrive]
  | cons c target =>
    cases target with
    | nil => simp [looksLikeWindowsDrivePath, HasDrive]
    | cons d target =>
      simp only [looksLikeWindowsDrivePath, HasDrive, List.length_cons, List.head?_cons,
        Option.any_some, List.getElem?_cons_succ, List.getElem?_cons_zero, Option.some.injEq,
        Bool.and_eq_true, decide_eq_true_eq, List.cons.injEq]
      constructor
      · rintro ⟨⟨-, hletter⟩, rfl⟩
        exact ⟨c, target, ⟨rfl, rfl, rfl⟩, hletter⟩
      · rintro ⟨_, _, ⟨rfl, rfl, rfl⟩, hletter⟩
        exact ⟨⟨by simp, hletter⟩, rfl⟩

/-- An address of a file has a scheme. -/
theorem hasScheme_of_fileUrl (h : looksLikeFileUrl qt target) : HasScheme qt target := by
  rw [looksLikeFileUrl, Bool.and_eq_true, decide_eq_true_eq, decide_eq_true_eq] at h
  obtain ⟨hlength, hfolded⟩ := h
  obtain ⟨start, rest, rfl, hstart⟩ : ∃ start rest, target = start ++ rest ∧ start.length = 5 :=
    ⟨target.take 5, target.drop 5, (List.take_append_drop 5 target).symm,
      List.length_take_of_le hlength⟩
  rw [← hstart, List.take_left] at hfolded
  have hletter : ∀ c ∈ ['f', 'i', 'l', 'e'], ∀ ch, qt.toCaseFolded ch = qt.toCaseFolded c →
      qt.isLetter ch := by
    intro c hc ch hch
    have halpha : ∀ c ∈ ['f', 'i', 'l', 'e'], c.isAlpha := by simp
    exact qt.isLetter_of_folded ch c hch (qt.isLetter_of_isAlpha c (halpha c hc))
  obtain ⟨f, i, l, e, colon, rfl⟩ : ∃ f i l e colon, start = [f, i, l, e, colon] := by
    rcases start with _ | ⟨f, _ | ⟨i, _ | ⟨l, _ | ⟨e, _ | ⟨colon, _ | ⟨other, start⟩⟩⟩⟩⟩⟩
    all_goals simp at hstart ⊢
  simp only [folded, List.map_cons, List.map_nil] at hfolded
  obtain ⟨hf, hi, hl, he, hcolon⟩ := by simpa using hfolded
  obtain rfl := qt.eq_of_folded colon hcolon
  refine ⟨f, [i, l, e], rest, rfl, hletter 'f' (by decide) f hf, ?_⟩
  simp only [List.mem_cons, List.not_mem_nil, or_false, forall_eq_or_imp, forall_eq]
  exact ⟨.inl (qt.isLetterOrNumber_of_isLetter i (hletter 'i' (by decide) i hi)),
    .inl (qt.isLetterOrNumber_of_isLetter l (hletter 'l' (by decide) l hl)),
    .inl (qt.isLetterOrNumber_of_isLetter e (hletter 'e' (by decide) e he))⟩

/-- **What is refused or opened elsewhere** is not relative. -/
theorem isRelative_iff : IsRelative qt target ↔
    looksLikeFilesystemTarget qt target = false ∧ hasUrlScheme qt target = false := by
  rw [looksLikeFilesystemTarget]
  constructor
  · rintro ⟨hslash, hbackslash, hdrive, hscheme⟩
    rw [← looksLikeWindowsDrivePath_iff] at hdrive
    rw [← hasUrlScheme_iff] at hscheme
    have hfile := mt hasScheme_of_fileUrl (mt hasUrlScheme_iff.mpr hscheme)
    cases target with
    | nil => simp_all
    | cons c target =>
      simp only [List.head?_cons, ne_eq, Option.some.injEq] at hslash hbackslash
      simp_all [List.isPrefixOf, Ne.symm]
  · rintro ⟨hfilesystem, hscheme⟩
    simp only [Bool.or_eq_false_iff] at hfilesystem
    refine ⟨?_, ?_, ?_, ?_⟩
    · rintro hhead
      obtain ⟨rest, rfl⟩ := List.head?_eq_some_iff.mp hhead
      simp at hfilesystem
    · rintro hhead
      obtain ⟨rest, rfl⟩ := List.head?_eq_some_iff.mp hhead
      simp at hfilesystem
    · rw [← looksLikeWindowsDrivePath_iff]
      simp [hfilesystem]
    · rw [← hasUrlScheme_iff]
      simp [hscheme]

/-! ## Links to files -/

variable {index : UInt16} {sourcePath : List Char} {directory below : List (List Char)}

/-- The names of the directory of the source. -/
def sourceNames (qt : Toolkit) (sourcePath : List Char) : List (List Char) :=
  names (qt.absolutePath sourcePath)

/-- The names a target leads to. -/
def targetNames (qt : Toolkit) (sourcePath target : List Char) : List (List Char) :=
  names (join (qt.absolutePath sourcePath) (pathPart target))

def documentState (sourcePath : List Char) : Option PrepareState := some ⟨some ⟨sourcePath⟩⟩

theorem pathPart_of_number (h : target.head? = some '#') : pathPart target = [] := by
  obtain ⟨rest, rfl⟩ := List.head?_eq_some_iff.mp h
  simp [pathPart]

/-- **The links to files**, and what they lead to. -/
theorem classifiedLink_localFile (hsource : sourcePath ≠ []) :
    ((classifiedLink qt index target (documentState sourcePath)).kind = .LocalFile ↔
      IsRelative qt target ∧ pathPart target ≠ [] ∧ '?' ∉ pathPart target ∧
        isContainedPath qt (qt.absolutePath sourcePath)
          (pathText (targetNames qt sourcePath target)) ∧
        looksLikeMarkdownFile qt (pathText (targetNames qt sourcePath target)) []) ∧
    ((classifiedLink qt index target (documentState sourcePath)).kind = .LocalFile →
      (classifiedLink qt index target (documentState sourcePath)).target =
        pathText (targetNames qt sourcePath target)) := by
  have habsolute : qt.absolutePath sourcePath ≠ [] := by
    intro hnil
    have hslash := qt.absolutePath_slash sourcePath
    rw [hnil] at hslash
    cases hslash
  by_cases hnumber : target.head? = some '#'
  · rw [classifiedLink, if_pos hnumber]
    simp [pathPart_of_number hnumber]
  by_cases hrelative : IsRelative qt target
  · obtain ⟨hfilesystem, hscheme⟩ := isRelative_iff.mp hrelative
    rw [classifiedLink, if_neg hnumber, if_neg (by simp [hfilesystem]), if_neg (by simp [hscheme])]
    by_cases hpart : pathPart target = []
    · simp [hpart]
    by_cases hquestion : '?' ∈ pathPart target
    · simp [documentState, hpart, hsource, hquestion]
    · simp only [documentState, Option.bind_some, hpart, hsource, if_false, hquestion, habsolute,
        List.contains_iff_mem, hrelative, ne_eq, not_false_eq_true, true_and, targetNames,
        cleanPath]
      by_cases hcontained : isContainedPath qt (qt.absolutePath sourcePath)
          (pathText (names (join (qt.absolutePath sourcePath) (pathPart target))))
      · by_cases hmarkdown : looksLikeMarkdownFile qt
            (pathText (names (join (qt.absolutePath sourcePath) (pathPart target)))) []
        · simp [hcontained, hmarkdown]
        · simp [hcontained, hmarkdown]
      · simp [hcontained]
  · have hrefused : looksLikeFilesystemTarget qt target ∨ hasUrlScheme qt target := by
      by_contra hneither
      rw [not_or, Bool.not_eq_true, Bool.not_eq_true] at hneither
      exact hrelative (isRelative_iff.mpr hneither)
    rw [classifiedLink, if_neg hnumber]
    split
    · simp [hrelative]
    · next hfilesystem =>
      rw [if_pos (hrefused.resolve_left hfilesystem), normalizePreparedUrlLink]
      split <;> simp [hrelative]

/-- Below a directory, as the code decides it. -/
def ContainedIgnoringCase (qt : Toolkit) (directory below : List (List Char)) : Prop :=
  lowered qt (pathText below) = lowered qt (pathText directory) ∨
    lowered qt (pathText directory) ++ ['/'] <+: lowered qt (pathText below)

/-- Strictly below a directory. -/
def Inside (directory below : List (List Char)) : Prop := directory <+: below ∧ below ≠ directory

theorem isContainedPath_iff : isContainedPath qt (qt.absolutePath sourcePath)
      (pathText (targetNames qt sourcePath target)) ↔
    ContainedIgnoringCase qt (sourceNames qt sourcePath) (targetNames qt sourcePath target) := by
  have hclean : cleanPath (pathText (targetNames qt sourcePath target)) =
      pathText (targetNames qt sourcePath target) := cleanPath_cleanPath _
  rw [isContainedPath, comparablePath, comparablePath, hclean]
  rw [ContainedIgnoringCase, sourceNames, Bool.or_eq_true, decide_eq_true_eq,
    List.isPrefixOf_iff_prefix]
  rfl

theorem lowered_append (text rest : List Char) :
    lowered qt (text ++ rest) = lowered qt text ++ lowered qt rest := List.flatMap_append

theorem lowered_slash (rest : List Char) : lowered qt ('/' :: rest) = '/' :: lowered qt rest := by
  rw [lowered, List.flatMap_cons, qt.toLower_slash]
  rfl

/-- Outside of the root, what is below a directory is so for the code. -/
theorem contained_of_inside (hroot : directory ≠ []) (h : Inside directory below) :
    ContainedIgnoringCase qt directory below := by
  obtain ⟨⟨rest, rfl⟩, hne⟩ := h
  have hrest : rest ≠ [] := by
    rintro rfl
    simp at hne
  right
  rw [pathText_append hroot hrest, lowered_append, lowered_slash]
  exact ⟨lowered qt (List.intercalate ['/'] rest), by simp⟩

/-- **In the root** nothing is below the directory for the code. -/
theorem not_contained_root (hnames : ∀ name ∈ below, IsName name) (hne : below ≠ []) :
    ¬ContainedIgnoringCase qt [] below := by
  obtain ⟨name, rest, rfl⟩ := List.exists_cons_of_ne_nil hne
  obtain ⟨c, text, htext, hc⟩ := @pathText_cons rest name (hnames name List.mem_cons_self)
  obtain ⟨hlower, hslash⟩ := qt.toLower_ne c hc
  obtain ⟨d, ds, hd⟩ := List.exists_cons_of_ne_nil hlower
  have hfirst : lowered qt (pathText (name :: rest)) = '/' :: d :: (ds ++ lowered qt text) := by
    rw [htext, lowered_slash, lowered, List.flatMap_cons, hd]
    rfl
  have hroot : lowered qt (pathText []) = ['/'] := lowered_slash []
  have hd' : d ≠ '/' := by
    rintro rfl
    exact hslash (hd ▸ List.mem_cons_self)
  rintro (heq | hcontained)
  · rw [hfirst, hroot] at heq
    cases heq
  · rw [hfirst, hroot] at hcontained
    simp [List.cons_prefix_cons, hd'.symm] at hcontained

/-- A link to a Markdown file whose path is tested. -/
structure Tested (qt : Toolkit) (sourcePath target : List Char) : Prop where
  relative : IsRelative qt target
  ne_nil : pathPart target ≠ []
  question : '?' ∉ pathPart target
  markdown : looksLikeMarkdownFile qt (pathText (targetNames qt sourcePath target)) []

/-- **The paths that are misjudged**: those from the root, those to the directory, and those out of
it whose lowercased texts lead into it. -/
def Misjudged (qt : Toolkit) (directory below : List (List Char)) : Prop :=
  directory = [] ∧ below ≠ [] ∨ below = directory ∨
    ¬directory <+: below ∧ ContainedIgnoringCase qt directory below

/-- What links to files are to be: strictly below the directory of the source, with a relative
target, and every such Markdown file. -/
def Safe (qt : Toolkit) (index : UInt16) (sourcePath target : List Char) : Prop :=
  ((classifiedLink qt index target (documentState sourcePath)).kind = .LocalFile →
    IsRelative qt target ∧
    (classifiedLink qt index target (documentState sourcePath)).target =
      pathText (targetNames qt sourcePath target) ∧
    Inside (sourceNames qt sourcePath) (targetNames qt sourcePath target)) ∧
  (IsRelative qt target → '?' ∉ pathPart target →
    looksLikeMarkdownFile qt (pathText (targetNames qt sourcePath target)) [] →
    Inside (sourceNames qt sourcePath) (targetNames qt sourcePath target) →
    (classifiedLink qt index target (documentState sourcePath)).kind = .LocalFile)

theorem localFile_iff (hsource : sourcePath ≠ []) :
    (classifiedLink qt index target (documentState sourcePath)).kind = .LocalFile ↔
      Tested qt sourcePath target ∧ ContainedIgnoringCase qt (sourceNames qt sourcePath)
        (targetNames qt sourcePath target) := by
  rw [(classifiedLink_localFile hsource).1, isContainedPath_iff]
  constructor
  · rintro ⟨hrelative, hpart, hquestion, hcontained, hmarkdown⟩
    exact ⟨⟨hrelative, hpart, hquestion, hmarkdown⟩, hcontained⟩
  · rintro ⟨⟨hrelative, hpart, hquestion, hmarkdown⟩, hcontained⟩
    exact ⟨hrelative, hpart, hquestion, hcontained, hmarkdown⟩

/-- An empty path leads to the directory. -/
theorem targetNames_of_nil (h : pathPart target = []) :
    targetNames qt sourcePath target = sourceNames qt sourcePath := by
  rw [targetNames, h, names_join]
  simp [split, resolve, sourceNames]

/-- **Links do not leave the folder** exactly if their path is not misjudged. -/
theorem classifiedLink_safe_iff (qt : Toolkit) (index : UInt16) (sourcePath target : List Char)
    (hsource : sourcePath ≠ []) :
    Safe qt index sourcePath target ↔
      ¬(Tested qt sourcePath target ∧
        Misjudged qt (sourceNames qt sourcePath) (targetNames qt sourcePath target)) := by
  have hnames : ∀ name ∈ targetNames qt sourcePath target, IsName name :=
    fun _ => isName_of_mem_names
  rw [Safe, localFile_iff hsource]
  constructor
  · rintro ⟨hsafe, haccepts⟩ ⟨htested, hmisjudged⟩
    obtain ⟨hroot, hbelow⟩ | hsame | ⟨houtside, hcontained⟩ := hmisjudged
    · rw [hroot] at haccepts
      have hinside : Inside [] (targetNames qt sourcePath target) := ⟨List.nil_prefix, hbelow⟩
      have hlocal := haccepts htested.relative htested.question htested.markdown hinside
      exact not_contained_root hnames hbelow hlocal.2
    · have hlocal := hsafe ⟨htested, .inl (by rw [hsame])⟩
      exact hlocal.2.2.2 hsame
    · exact houtside (hsafe ⟨htested, hcontained⟩).2.2.1
  · intro hjudged
    constructor
    · rintro ⟨htested, hcontained⟩
      refine ⟨htested.relative, (classifiedLink_localFile hsource).2
        ((localFile_iff hsource).mpr ⟨htested, hcontained⟩), ?_, ?_⟩
      · by_contra houtside
        exact hjudged ⟨htested, .inr (.inr ⟨houtside, hcontained⟩)⟩
      · intro hsame
        exact hjudged ⟨htested, .inr (.inl hsame)⟩
    · intro hrelative hquestion hmarkdown hinside
      have hpart : pathPart target ≠ [] := fun hpart => hinside.2 (targetNames_of_nil hpart)
      have htested : Tested qt sourcePath target := ⟨hrelative, hpart, hquestion, hmarkdown⟩
      refine ⟨htested, contained_of_inside (fun hroot => ?_) hinside⟩
      exact hjudged ⟨htested, .inl ⟨hroot, hroot ▸ hinside.2⟩⟩

/-! ## ASCII paths -/

def asciiLetter (c : Char) : Bool :=
  (0x41 ≤ c.toNat && c.toNat ≤ 0x5A) || (0x61 ≤ c.toNat && c.toNat ≤ 0x7A)

def asciiLetterOrNumber (c : Char) : Bool :=
  asciiLetter c || (0x30 ≤ c.toNat && c.toNat ≤ 0x39)

def asciiLower (c : Char) : Char :=
  if 0x41 ≤ c.toNat ∧ c.toNat ≤ 0x5A then Char.ofNat (c.toNat + 0x20) else c

theorem toNat_asciiLower (c : Char) : (asciiLower c).toNat =
    if 0x41 ≤ c.toNat ∧ c.toNat ≤ 0x5A then c.toNat + 0x20 else c.toNat := by
  rw [asciiLower]
  split
  · rw [Char.toNat_ofNat, if_pos]
    rw [Nat.isValidChar]
    omega
  · rfl

/-- What Qt says of ASCII texts. -/
def asciiToolkit : Toolkit where
  isLetter := asciiLetter
  isLetterOrNumber := asciiLetterOrNumber
  toLower c := [asciiLower c]
  toCaseFolded := asciiLower
  absolutePath path := pathText (names path).dropLast
  encodeForOpening target := target
  urlPath _ := []
  isLetter_of_isAlpha c h := by
    simp only [Char.isAlpha, Char.isUpper, Char.isLower, Bool.or_eq_true, Bool.and_eq_true,
      decide_eq_true_eq, ge_iff_le, UInt32.le_iff_toNat_le] at h
    simp only [asciiLetter, Bool.or_eq_true, Bool.and_eq_true, decide_eq_true_eq]
    exact h
  isLetterOrNumber_of_isLetter c h := by simp [asciiLetterOrNumber, h]
  not_isLetterOrNumber := by simp [asciiLetterOrNumber, asciiLetter]
  toLower_slash := by decide
  toLower_ne c h := by
    refine ⟨by simp, fun hmem => ?_⟩
    have hlower := congrArg Char.toNat (List.mem_singleton.mp hmem)
    rw [toNat_asciiLower] at hlower
    have hne : c.toNat ≠ 0x2F := fun heq => h (Char.toNat_inj.mp heq)
    change 0x2F = _ at hlower
    split at hlower <;> omega
  isLetter_of_folded c d h hd := by
    have hlower := congrArg Char.toNat h
    rw [toNat_asciiLower, toNat_asciiLower] at hlower
    simp only [asciiLetter, Bool.or_eq_true, Bool.and_eq_true, decide_eq_true_eq] at hd ⊢
    split at hlower <;> split at hlower <;> omega
  eq_of_folded c h := by
    have hlower := congrArg Char.toNat h
    rw [toNat_asciiLower, toNat_asciiLower] at hlower
    change _ = 0x3A at hlower
    refine Char.toNat_inj.mp ?_
    change c.toNat = 0x3A
    split at hlower <;> omega
  absolutePath_slash _ := rfl

/-- A link from one folder of a source to another. -/
theorem classifiedLink_safe_iff_below :
    Safe asciiToolkit 0 "/Docs/a.md".toList "b/x.md#top".toList ↔
      ¬(Tested asciiToolkit "/Docs/a.md".toList "b/x.md#top".toList ∧
        Misjudged asciiToolkit (sourceNames asciiToolkit "/Docs/a.md".toList)
          (targetNames asciiToolkit "/Docs/a.md".toList "b/x.md#top".toList)) :=
  classifiedLink_safe_iff asciiToolkit 0 "/Docs/a.md".toList "b/x.md#top".toList (by decide)

/-- From a folder `/Docs` a link leads to a file of the folder `/docs`, and from the root no link
leads to a file of it. -/
theorem not_classifiedLink_safe :
    ((classifiedLink asciiToolkit 0 "../docs/x.md".toList
        (documentState "/Docs/a.md".toList)).kind = .LocalFile ∧
      (classifiedLink asciiToolkit 0 "../docs/x.md".toList
        (documentState "/Docs/a.md".toList)).target = "/docs/x.md".toList ∧
      ¬Safe asciiToolkit 0 "/Docs/a.md".toList "../docs/x.md".toList) ∧
    ((classifiedLink asciiToolkit 0 "x.md".toList
        (documentState "/a.md".toList)).kind = .RejectedRelative ∧
      ¬Safe asciiToolkit 0 "/a.md".toList "x.md".toList) := by
  refine ⟨⟨by decide +kernel, by decide +kernel, fun hsafe => ?_⟩,
    by decide +kernel, fun hsafe => ?_⟩
  · have hinside := (hsafe.1 (by decide +kernel)).2.2.1
    revert hinside
    decide +kernel
  · have hlocal := hsafe.2 (isRelative_iff.mpr (by decide +kernel)) (by decide +kernel)
      (by decide +kernel) ⟨by decide +kernel, by decide +kernel⟩
    revert hlocal
    decide +kernel

end Markdown

end Iv

end MessengerClient
