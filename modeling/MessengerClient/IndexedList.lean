import Mathlib
import MessengerClient.DialogsList
import MessengerClient.Lib.FlatMap

/-!
# MessengerClient.IndexedList

`Dialogs::IndexedList`: a chat list together with one list for each first letter, and the
search that goes through the shortest of those.

A `Dialogs::List` is here the keys of its rows, in their order: `_rowByKey` has one row for
each key, and where a row stands on the screen does not matter to the search.  The links
that a history keeps to the rows of its letters are left out.
-/

namespace MessengerClient

namespace IndexedList

/-- A UTF-16 unit. -/
abbrev QChar : Type := Fin (2 ^ 16)

/-- A `base::flat_set`. -/
abbrev FlatSet (K : Type) [LinearOrder K] : Type := FlatMap K Unit

/-- A word of a name, which has a first letter. -/
abbrev NameWord : Type := { word : List QChar // word ≠ [] }

def NameWord.first (word : NameWord) : QChar := word.1.head word.2

/-- What a list asks of an entry. -/
structure Entry where
  nameWords : List NameWord
  nameSortKey : List QChar
  /-- The place by date in the list of this filter. -/
  sortKey : Nat

/-- `chatListFirstLetters`, as `fillNames` counts them. -/
def Entry.firstLetters (e : Entry) : FlatSet QChar :=
  e.nameWords.foldl (fun letters word => letters.emplace word.first ()) ∅

inductive SortMode
  | Date
  | Name
  | Add
deriving DecidableEq, Repr

/-! ## Lists -/

/-- The rows of a `Dialogs::List`, under different keys. -/
structure Rows (κ : Type) where
  keys : List κ := []
  nodup : keys.Nodup := by simp

variable {κ : Type}

/-- `std::rotate` inside a list. -/
def rotate (l : List κ) (first middle last : Nat) : List κ :=
  l.take first ++ DialogsList.rotated l first middle last ++ l.drop last

/-- The row at `i` moves down in front of the first row that `before` holds of, or else up
behind the last one that `after` holds of. -/
def adjust (before after : κ → Bool) (l : List κ) (i : Nat) : List κ :=
  let down := i + 1 + (l.drop (i + 1)).findIdx before
  if down ≠ i + 1 then rotate l i (i + 1) down
  else
    let up := i - (l.take i).reverse.findIdx after
    if up ≠ i then rotate l up i (i + 1) else l

theorem rotate_perm (l : List κ) {first middle last : Nat} (h₁ : first ≤ middle)
    (h₂ : middle ≤ last) : (rotate l first middle last).Perm l := by
  have hmiddle : l.drop first = (l.drop first).take (middle - first) ++ l.drop middle := by
    conv_lhs => rw [← List.take_append_drop (middle - first) (l.drop first)]
    rw [List.drop_drop, Nat.add_sub_cancel' h₁]
  have hlast : l.drop middle = (l.drop middle).take (last - middle) ++ l.drop last := by
    conv_lhs => rw [← List.take_append_drop (last - middle) (l.drop middle)]
    rw [List.drop_drop, Nat.add_sub_cancel' h₂]
  have hwhole : l = l.take first ++ ((l.drop first).take (middle - first) ++
      ((l.drop middle).take (last - middle) ++ l.drop last)) := by
    rw [← hlast, ← hmiddle, List.take_append_drop]
  conv_rhs => rw [hwhole]
  rw [rotate, DialogsList.rotated, List.append_assoc, List.append_assoc]
  refine List.Perm.append_left _ ?_
  rw [← List.append_assoc, ← List.append_assoc]
  exact List.perm_append_comm.append_right _

theorem adjust_perm (before after : κ → Bool) (l : List κ) (i : Nat) :
    (adjust before after l i).Perm l := by
  unfold adjust
  dsimp only
  split
  · exact rotate_perm l (Nat.le_succ i) (by omega)
  · split
    · exact rotate_perm l (Nat.sub_le _ _) (Nat.le_succ i)
    · exact List.Perm.refl l

namespace Rows

variable [DecidableEq κ] (entry : κ → Entry) (mode : SortMode)

instance : Membership κ (Rows κ) := ⟨fun rows key => key ∈ rows.keys⟩

instance (key : κ) (rows : Rows κ) : Decidable (key ∈ rows) :=
  inferInstanceAs (Decidable (key ∈ rows.keys))

def size (rows : Rows κ) : Nat := rows.keys.length

def isEmpty (rows : Rows κ) : Bool := rows.keys.isEmpty

def adjustBy (before after : κ → Bool) (rows : Rows κ) (key : κ) : Rows κ where
  keys := adjust before after rows.keys (rows.keys.idxOf key)
  nodup := (adjust_perm _ _ _ _).nodup_iff.mpr rows.nodup

def adjustByDate (rows : Rows κ) (key : κ) : Rows κ :=
  rows.adjustBy (fun k => (entry k).sortKey ≤ (entry key).sortKey)
    (fun k => (entry key).sortKey ≤ (entry k).sortKey) key

/-- `adjustByName`, of a row that is there. -/
def adjustByName (rows : Rows κ) (key : κ) : Rows κ :=
  if key ∈ rows then
    rows.adjustBy (fun k => ¬ (entry k).nameSortKey < (entry key).nameSortKey)
      (fun k => ¬ (entry key).nameSortKey < (entry k).nameSortKey) key
  else rows

def addToEnd (rows : Rows κ) (key : κ) : Rows κ :=
  if h : key ∈ rows.keys then rows
  else
    let added : Rows κ := ⟨rows.keys ++ [key], List.nodup_append.mpr
      ⟨rows.nodup, List.nodup_singleton key, fun k hk k' hk' heq =>
        h (List.mem_singleton.mp hk' ▸ heq ▸ hk)⟩⟩
    if mode = .Date then added.adjustByDate entry key else added

def addByName (rows : Rows κ) (key : κ) : Rows κ :=
  (rows.addToEnd entry mode key).adjustByName entry key

def remove (rows : Rows κ) (key : κ) : Rows κ := ⟨rows.keys.erase key, rows.nodup.erase key⟩

end Rows

end IndexedList

open IndexedList in
structure IndexedList (κ : Type) where
  sortMode : SortMode
  list : Rows κ := {}
  index : FlatMap QChar (Rows κ) := ∅

namespace IndexedList

variable {κ : Type} [DecidableEq κ] (entry : κ → Entry)

/-! ## The lists of the letters -/

/-- A list of a letter is made where there is none. -/
def onLetter (f : Rows κ → Rows κ) (index : FlatMap QChar (Rows κ)) (ch : QChar) :
    FlatMap QChar (Rows κ) := index.insert ch (f ((index.find? ch).getD {}))

/-- Only a list that is there is changed. -/
def onKnownLetter (f : Rows κ → Rows κ) (index : FlatMap QChar (Rows κ)) (ch : QChar) :
    FlatMap QChar (Rows κ) :=
  match index.find? ch with
  | some rows => index.insert ch (f rows)
  | none => index

/-- One letter of an entry is taken off `toRemove`, or put into `toAdd` if it is not there. -/
def sift (sets : FlatSet QChar × FlatSet QChar) (ch : QChar) : FlatSet QChar × FlatSet QChar :=
  if sets.1.contains ch then (sets.1.erase ch, sets.2) else (sets.1, sets.2.emplace ch ())

variable (s : IndexedList κ)

def addToEnd (key : κ) : IndexedList κ :=
  if key ∈ s.list then s
  else { s with
    list := s.list.addToEnd entry s.sortMode key
    index := (entry key).firstLetters.keys.foldl
      (onLetter (·.addToEnd entry s.sortMode key)) s.index }

def addByName (key : κ) : IndexedList κ :=
  if key ∈ s.list then s
  else { s with
    list := s.list.addByName entry s.sortMode key
    index := (entry key).firstLetters.keys.foldl
      (onLetter (·.addByName entry s.sortMode key)) s.index }

/-- One letter of the entry in `adjustByName`: a letter that stays is adjusted. -/
def adjustLetter (key : κ)
    (r : (FlatSet QChar × FlatSet QChar) × FlatMap QChar (Rows κ)) (ch : QChar) :
    (FlatSet QChar × FlatSet QChar) × FlatMap QChar (Rows κ) :=
  (sift r.1 ch,
    if r.1.1.contains ch then onKnownLetter (·.adjustByName entry key) r.2 ch else r.2)

def adjustByName (key : κ) (oldLetters : FlatSet QChar) : IndexedList κ :=
  if key ∈ s.list then
    let r := (entry key).firstLetters.keys.foldl (adjustLetter entry key)
      ((oldLetters, ∅), s.index)
    let removed := r.1.1.keys.foldl (onKnownLetter (·.remove key)) r.2
    { s with
      list := s.list.adjustByName entry key
      index := r.1.2.keys.foldl (onLetter (·.addByName entry s.sortMode key)) removed }
  else s

def adjustNames (key : κ) (oldLetters : FlatSet QChar) : IndexedList κ :=
  if key ∈ s.list then
    let sets := (entry key).firstLetters.keys.foldl sift (oldLetters, ∅)
    let removed := sets.1.keys.foldl (onKnownLetter (·.remove key)) s.index
    { s with index := sets.2.keys.foldl (onLetter (·.addToEnd entry s.sortMode key)) removed }
  else s

def remove (key : κ) : IndexedList κ :=
  if key ∈ s.list then
    { s with
      list := s.list.remove key
      index := (entry key).firstLetters.keys.foldl (onKnownLetter (·.remove key)) s.index }
  else s

/-! ## The search -/

/-- The shortest of the lists of the first letters, unless one of them is empty. -/
def minimal : List (List QChar) → Option (Rows κ) → Option (Rows κ)
  | [], result => result
  | [] :: words, result => minimal words result
  | (ch :: _) :: words, result =>
      match s.index.find? ch with
      | none => none
      | some found =>
          if found.isEmpty then none
          else
            match result with
            | none => minimal words (some found)
            | some rows => minimal words (some (if found.size < rows.size then found else rows))

/-- Every word begins some word of the name. -/
def allFound (words : List (List QChar)) (key : κ) : Bool :=
  words.all fun word => (entry key).nameWords.any fun name => word.isPrefixOf name.1

def filtered (words : List (List QChar)) : List κ :=
  if s.list.isEmpty then []
  else
    match s.minimal words none with
    | none => []
    | some rows => if rows.isEmpty then [] else rows.keys.filter (allFound entry words)

/-! ## Runs -/

inductive Action (κ : Type) where
  | setName (key : κ) (nameWords : List NameWord) (nameSortKey : List QChar)
  | setSortKey (key : κ) (sortKey : Nat)
  | addToEnd (key : κ)
  | addByName (key : κ)
  | adjustByName (key : κ) (oldLetters : FlatSet QChar)
  | adjustNames (key : κ) (oldLetters : FlatSet QChar)
  | remove (key : κ)

/-- A list and the entries, with the first letters that an entry had before its name was
changed, until it is adjusted. -/
structure State (κ : Type) where
  indexed : IndexedList κ
  entry : κ → Entry
  oldLetters : κ → Option (FlatSet QChar) := fun _ => none

namespace State

variable (s : State κ)

/-- The name of the entry was not changed since it was adjusted. -/
def Settled (key : κ) : Prop := s.oldLetters key = none

instance (key : κ) : Decidable (s.Settled key) :=
  decidable_of_iff ((s.oldLetters key).isNone = true) Option.isNone_iff_eq_none

/-- The letters are the ones from before the change, where there was one. -/
def Previous (key : κ) (oldLetters : FlatSet QChar) : Prop :=
  s.oldLetters key = none ∨ s.oldLetters key = some oldLetters

instance (key : κ) (oldLetters : FlatSet QChar) : Decidable (s.Previous key oldLetters) :=
  inferInstanceAs (Decidable (_ ∨ _))

def next : Action κ → Option (State κ)
  | .setName key nameWords nameSortKey =>
      if s.Settled key then
        some { s with
          entry := Function.update s.entry key { s.entry key with nameWords, nameSortKey }
          oldLetters := Function.update s.oldLetters key (some (s.entry key).firstLetters) }
      else none
  | .setSortKey key sortKey =>
      some { s with entry := Function.update s.entry key { s.entry key with sortKey } }
  | .addToEnd key =>
      if s.Settled key then some { s with indexed := s.indexed.addToEnd s.entry key } else none
  | .addByName key =>
      if s.indexed.sortMode = .Name ∧ s.Settled key then
        some { s with indexed := s.indexed.addByName s.entry key }
      else none
  | .adjustByName key oldLetters =>
      if s.indexed.sortMode = .Name ∧ s.Previous key oldLetters then
        some { s with
          indexed := s.indexed.adjustByName s.entry key oldLetters
          oldLetters := Function.update s.oldLetters key none }
      else none
  | .adjustNames key oldLetters =>
      if s.Previous key oldLetters then
        some { s with
          indexed := s.indexed.adjustNames s.entry key oldLetters
          oldLetters := Function.update s.oldLetters key none }
      else none
  | .remove key =>
      if s.Settled key then some { s with indexed := s.indexed.remove s.entry key } else none

/-- The runs of an empty list of any mode, with any entries. -/
def system (κ : Type) [DecidableEq κ] : System (State κ) (Action κ) where
  init s := (∃ sortMode, s.indexed = { sortMode }) ∧ ∀ key, s.Settled key
  step s a s' := s.next a = some s'

end State

end IndexedList

end MessengerClient
