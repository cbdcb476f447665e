import Mathlib

/-!
# MessengerClient.Lib.Paths

Absolute paths with slashes, as texts and as the names from the root on.

A path is cleaned by leaving out empty names and dots, and letting two dots take back the name
before them.  The text of clean names is cleaned to itself (`cleanPath_pathText`), and a path that
is joined to a directory leads from its names on (`names_join`).
-/

namespace MessengerClient

namespace Paths

/-- The names of a path are between its slashes. -/
def split (path : List Char) : List (List Char) := path.splitOn '/'

/-- The names a path leads to; those that were passed stand last one first. -/
def resolve : List (List Char) → List (List Char) → List (List Char)
  | passed, [] => passed.reverse
  | passed, name :: names =>
    if name = [] ∨ name = ['.'] then resolve passed names
    else if name = ['.', '.'] then resolve passed.tail names
    else resolve (name :: passed) names

/-- The names of an absolute path. -/
def names (path : List Char) : List (List Char) := resolve [] (split path)

def pathText (names : List (List Char)) : List Char := '/' :: List.intercalate ['/'] names

/-- `QDir::cleanPath` of an absolute path. -/
def cleanPath (path : List Char) : List Char := pathText (names path)

/-- `QDir::absoluteFilePath` of a relative path. -/
def join (directory path : List Char) : List Char :=
  if directory.getLast? = some '/' then directory ++ path else directory ++ '/' :: path

/-- A name that a clean path may have. -/
structure IsName (name : List Char) : Prop where
  ne_nil : name ≠ []
  ne_dot : name ≠ ['.']
  ne_dots : name ≠ ['.', '.']
  slash : '/' ∉ name

variable {passed before after xs : List (List Char)} {path directory : List Char}

theorem not_slash_of_mem_split {name : List Char} (h : name ∈ split path) : '/' ∉ name := by
  induction path generalizing name with
  | nil =>
    rw [split, List.splitOn_nil, List.mem_singleton] at h
    simp [h]
  | cons c path ih =>
    rw [split, List.splitOn_cons_eq_if_modifyHead] at h
    split at h
    · obtain rfl | h := List.mem_cons.mp h
      · simp
      · exact ih h
    · next hc =>
      obtain ⟨first, rest, hfirst⟩ := List.exists_cons_of_ne_nil (List.splitOn_ne_nil '/' path)
      rw [hfirst, List.modifyHead_cons, List.mem_cons] at h
      have hsplit : split path = first :: rest := hfirst
      obtain rfl | h := h
      · simp only [List.mem_cons, not_or]
        refine ⟨fun heq => hc (by simp [← heq]), ih ?_⟩
        rw [hsplit]
        exact List.mem_cons_self
      · exact ih (by rw [hsplit]; exact List.mem_cons_of_mem _ h)

/-- **What a path leads to** are names. -/
theorem isName_of_mem_resolve (hpassed : ∀ name ∈ passed, IsName name)
    (hslash : ∀ name ∈ xs, '/' ∉ name) : ∀ name ∈ resolve passed xs, IsName name := by
  induction xs generalizing passed with
  | nil => simpa [resolve] using hpassed
  | cons name xs ih =>
    obtain ⟨hname, hxs⟩ := List.forall_mem_cons.mp hslash
    rw [resolve]
    split
    · exact ih hpassed hxs
    split
    · exact ih (fun other hother => hpassed other (List.mem_of_mem_tail hother)) hxs
    · next hdot hdots =>
      refine ih (List.forall_mem_cons.mpr ⟨?_, hpassed⟩) hxs
      exact ⟨fun h => hdot (.inl h), fun h => hdot (.inr h), hdots, hname⟩

theorem isName_of_mem_names {name : List Char} (h : name ∈ names path) : IsName name :=
  isName_of_mem_resolve (by simp) (fun _ => not_slash_of_mem_split) name h

theorem resolve_append : resolve passed (before ++ after) =
    resolve (resolve passed before).reverse after := by
  induction before generalizing passed with
  | nil => simp [resolve]
  | cons name before ih =>
    simp only [List.cons_append, resolve]
    split
    · exact ih
    split
    · exact ih
    · exact ih

theorem resolve_names (h : ∀ name ∈ xs, IsName name) :
    resolve passed xs = passed.reverse ++ xs := by
  induction xs generalizing passed with
  | nil => simp [resolve]
  | cons name xs ih =>
    obtain ⟨hname, hxs⟩ := List.forall_mem_cons.mp h
    have hdot : ¬(name = [] ∨ name = ['.']) := by
      rintro (hnil | hdot)
      · exact hname.ne_nil hnil
      · exact hname.ne_dot hdot
    rw [resolve, if_neg hdot, if_neg hname.ne_dots, ih hxs]
    simp

theorem split_append_slash (before after : List Char) :
    split (before ++ '/' :: after) = split before ++ split after :=
  List.splitOn_append_cons_self before after

/-- **Clean names are the names of their text.** -/
theorem names_pathText (h : ∀ name ∈ xs, IsName name) : names (pathText xs) = xs := by
  have hsplit : split (pathText xs) = [] :: split (List.intercalate ['/'] xs) :=
    split_append_slash [] _
  rw [names, hsplit]
  cases xs with
  | nil => rfl
  | cons name xs =>
    have hsame : split (List.intercalate ['/'] (name :: xs)) = name :: xs :=
      List.splitOn_intercalate '/' (fun other hother => (h other hother).slash)
        (List.cons_ne_nil _ _)
    rw [hsame, resolve, if_pos (.inl rfl), resolve_names h]
    rfl

theorem cleanPath_pathText (h : ∀ name ∈ xs, IsName name) :
    cleanPath (pathText xs) = pathText xs := by
  rw [cleanPath, names_pathText h]

theorem cleanPath_cleanPath (path : List Char) : cleanPath (cleanPath path) = cleanPath path :=
  cleanPath_pathText fun _ => isName_of_mem_names

/-- **A path from a directory on** leads from the names of the directory on. -/
theorem names_join (directory path : List Char) :
    names (join directory path) = resolve (names directory).reverse (split path) := by
  rw [join]
  split
  · next hlast =>
    obtain ⟨start, rfl⟩ := List.getLast?_eq_some_iff.mp hlast
    have hstart : split (start ++ ['/']) = split start ++ [[]] := split_append_slash start []
    have hpath : split (start ++ ['/'] ++ path) = split start ++ split path := by
      rw [List.append_assoc]
      exact split_append_slash start path
    rw [names, names, hstart, hpath, resolve_append, resolve_append]
    simp [resolve]
  · rw [names, split_append_slash, resolve_append]
    rfl

theorem intercalate_append (hbefore : before ≠ []) (hafter : after ≠ []) :
    List.intercalate ['/'] (before ++ after) =
      List.intercalate ['/'] before ++ '/' :: List.intercalate ['/'] after := by
  induction before with
  | nil => exact absurd rfl hbefore
  | cons name before ih =>
    cases before with
    | nil =>
      rw [List.singleton_append, List.intercalate_cons_of_ne_nil hafter,
        List.intercalate_singleton]
      simp
    | cons second before =>
      have hrest := ih (List.cons_ne_nil _ _)
      rw [List.cons_append, List.intercalate_cons_of_ne_nil (by simp), hrest,
        List.intercalate_cons_of_ne_nil (List.cons_ne_nil _ _)]
      simp

/-- **The text of a path below** one that is not the root begins with the text of that. -/
theorem pathText_append (hbefore : before ≠ []) (hafter : after ≠ []) :
    pathText (before ++ after) = pathText before ++ '/' :: List.intercalate ['/'] after := by
  rw [pathText, pathText, intercalate_append hbefore hafter, List.cons_append]

/-- Only below the root a clean path has more than its first slash. -/
theorem pathText_cons {name : List Char} (hname : IsName name) :
    ∃ c rest, pathText (name :: xs) = '/' :: c :: rest ∧ c ≠ '/' := by
  obtain ⟨c, rest, hcons⟩ := List.exists_cons_of_ne_nil hname.ne_nil
  have hc : c ≠ '/' := by
    rintro rfl
    exact hname.slash (hcons ▸ List.mem_cons_self)
  cases xs with
  | nil => exact ⟨c, rest, by rw [pathText, List.intercalate_singleton, hcons], hc⟩
  | cons second xs =>
    refine ⟨c, rest ++ ['/'] ++ List.intercalate ['/'] (second :: xs), ?_, hc⟩
    rw [pathText, List.intercalate_cons_of_ne_nil (List.cons_ne_nil _ _), hcons]
    simp

/-- Different clean paths have different texts. -/
theorem pathText_inj {ys : List (List Char)} (hxs : ∀ name ∈ xs, IsName name)
    (hys : ∀ name ∈ ys, IsName name) (h : pathText xs = pathText ys) : xs = ys := by
  rw [← names_pathText hxs, ← names_pathText hys, h]

end Paths

end MessengerClient
