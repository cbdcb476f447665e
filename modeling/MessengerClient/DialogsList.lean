import MessengerClient.Lib.Dict
import MessengerClient.Lib.Runs
import Mathlib.Logic.Function.Basic

/-!
# MessengerClient.DialogsList

`Dialogs::List` in the mode `SortMode::Date`: the rows of a chat list, which know their
index and their top.

A row is a pointer, and its fields are looked up under it.  The sort keys are those of the
entries, and so are the heights that are counted again: an action brings them.  Reading a
height that is not counted yet is an `Expects` that fails; where one does, an operation is
`none`.  The order in which `unfreeze` goes through a set of pointers is part of the action.
-/

namespace MessengerClient

namespace DialogsList

abbrev Pointer := Nat

/-- A row; its key is missing where no row was made. -/
structure Row (κ : Type) where
  id : Option κ := none
  index : Nat := 0
  top : Nat := 0
  height : Nat := 0

end DialogsList

open DialogsList in
structure DialogsList (κ : Type) where
  frozen : Bool := false
  rows : List Pointer := []
  rowByKey : Dict κ Pointer := []
  pendingAdjust : List Pointer := []
  /-- The fields of the rows, and how many rows were made. -/
  row : Pointer → Row κ := fun _ => {}
  made : Nat := 0

namespace DialogsList

variable {κ : Type} [DecidableEq κ]

/-- `std::rotate` of the elements from `first` to `last`. -/
def rotated {α : Type} (l : List α) (first middle last : Nat) : List α :=
  (l.drop middle).take (last - middle) ++ (l.drop first).take (middle - first)

/-- The rows from one index and one top on. -/
def place (row : Pointer → Row κ) : List Pointer → Nat → Nat → Pointer → Row κ
  | [], _, _ => row
  | p :: ps, index, top =>
      place (Function.update row p { row p with index, top }) ps (index + 1)
        (top + (row p).height)

/-- The heights of some rows may be read. -/
def Counted (row : Pointer → Row κ) (ps : List Pointer) : Prop := ∀ p ∈ ps, (row p).height ≠ 0

instance (row : Pointer → Row κ) (ps : List Pointer) : Decidable (Counted row ps) :=
  inferInstanceAs (Decidable (∀ p ∈ ps, _))

variable (l : DialogsList κ) (sortKey : κ → Nat)

def getRow (key : κ) : Option Pointer := Dict.find? l.rowByKey key

/-- The sort key of the entry of a row. -/
def sortKeyOf (p : Pointer) : Nat := ((l.row p).id.map sortKey).getD 0

def height : Option Nat :=
  match l.rows.getLast? with
  | none => some 0
  | some p => if (l.row p).height ≠ 0 then some ((l.row p).top + (l.row p).height) else none

/-- Some rows are placed again, from one index and one top on. -/
def replace (rows moved : List Pointer) (index top : Nat) : Option (DialogsList κ) :=
  if Counted l.row moved then some { l with rows, row := place l.row moved index top } else none

def rotate (first middle last : Nat) : Option (DialogsList κ) := do
  let p ← l.rows[first]?
  let moved := rotated l.rows first middle last
  l.replace (l.rows.take first ++ moved ++ l.rows.drop last) moved first (l.row p).top

/-- `adjustByDate`, where it is not postponed. -/
def adjustNow (p : Pointer) : Option (DialogsList κ) :=
  let key := l.sortKeyOf sortKey p
  let i := (l.row p).index
  if l.rows.length ≤ i then none
  else
    let before := i + 1 + (l.rows.drop (i + 1)).findIdx fun q => l.sortKeyOf sortKey q ≤ key
    if before ≠ i + 1 then l.rotate i (i + 1) before
    else
      let after := i - (l.rows.take i).reverse.findIdx fun q => key ≤ l.sortKeyOf sortKey q
      if after ≠ i then l.rotate after i (i + 1) else some l

/-- The row is adjusted at once; `pinned` says that its entry is pinned or fixed on top. -/
def CanAdjust (pinned : Bool) : Prop := l.frozen = true → l.pendingAdjust = [] ∧ pinned = true

instance (pinned : Bool) : Decidable (l.CanAdjust pinned) :=
  inferInstanceAs (Decidable (_ → _))

def adjustByDate (p : Pointer) (pinned : Bool) : Option (DialogsList κ) :=
  if l.rows.length ≤ (l.row p).index then none
  else if l.CanAdjust pinned then l.adjustNow sortKey p
  else some { l with
    pendingAdjust := if p ∈ l.pendingAdjust then l.pendingAdjust else l.pendingAdjust ++ [p] }

def addToEnd (key : κ) (pinned : Bool) (counted : Nat) : Option (DialogsList κ) :=
  match l.getRow key with
  | some _ => some l
  | none => do
      let top ← l.height
      let row : Row κ := { id := some key, index := l.rows.length, top, height := counted }
      { l with
        rows := l.rows ++ [l.made]
        rowByKey := Dict.set l.rowByKey key l.made
        row := Function.update l.row l.made row
        made := l.made + 1 }.adjustByDate sortKey l.made pinned

def sortedByDate : Bool :=
  (List.range (l.rows.length - 1)).all fun i =>
    match l.rows[i]?, l.rows[i + 1]? with
    | some p, some q => l.sortKeyOf sortKey q ≤ l.sortKeyOf sortKey p
    | _, _ => true

def sortByDate : Option (DialogsList κ) :=
  let rows := l.rows.mergeSort fun p q => l.sortKeyOf sortKey q ≤ l.sortKeyOf sortKey p
  l.replace rows rows 0 0

/-- The rows that are pending, in an order of theirs. -/
def unfreeze (pending : List Pointer) : Option (DialogsList κ) :=
  let l := { l with frozen := false, pendingAdjust := [] }
  match pending with
  | [] => some l
  | [p] => l.adjustByDate sortKey p false
  | pending => do
      let l ← pending.foldlM (fun l p => l.adjustByDate sortKey p false) l
      if l.sortedByDate sortKey then some l else l.sortByDate sortKey

def updateHeight (key : κ) (counted : Nat) : Option (DialogsList κ) :=
  match l.getRow key with
  | none => some l
  | some p =>
      let was := (l.row p).height
      if was = 0 ∨ counted = 0 then none
      else if counted = was then some l
      else
        { l with row := Function.update l.row p { l.row p with height := counted } }.replace
          l.rows (l.rows.drop (l.row p).index) (l.row p).index (l.row p).top

def updateHeights (counted : κ → Nat) : Option (DialogsList κ) := do
  let _ ← l.height
  { l with row := fun p =>
      if p ∈ l.rows then { l.row p with height := ((l.row p).id.map counted).getD 0 }
      else l.row p }.replace l.rows l.rows 0 0

def moveToTop (key : κ) : Option (DialogsList κ) :=
  match l.getRow key with
  | none => some l
  | some p => l.rotate 0 (l.row p).index ((l.row p).index + 1)

def remove (key : κ) : Option (DialogsList κ) :=
  match l.getRow key with
  | none => some l
  | some p =>
      let index := (l.row p).index
      let rows := l.rows.eraseIdx index
      { l with
        pendingAdjust := l.pendingAdjust.filter (· ≠ p)
        rowByKey := Dict.erase l.rowByKey key }.replace rows (rows.drop index) index (l.row p).top

/-! ## Runs -/

inductive Action (κ : Type) where
  | setSortKey (key : κ) (sortKey : Nat)
  | addToEnd (key : κ) (pinned : Bool) (counted : Nat)
  | adjustByDate (key : κ) (pinned : Bool)
  | freeze
  | unfreeze (pending : List Pointer)
  | updateHeight (key : κ) (counted : Nat)
  | updateHeights (counted : κ → Nat)
  | moveToTop (key : κ)
  | remove (key : κ)

structure State (κ : Type) where
  list : DialogsList κ := {}
  sortKey : κ → Nat := fun _ => 0
  /-- The keys whose sort key has changed since their row was last given to `adjustByDate`. -/
  stale : List κ := []

namespace State

variable (s : State κ)

def next : Action κ → Option (State κ)
  | .setSortKey key sortKey =>
      some { s with
        sortKey := Function.update s.sortKey key sortKey
        stale := if (s.list.getRow key).isSome then key :: s.stale else s.stale }
  | .addToEnd key pinned counted =>
      (s.list.addToEnd s.sortKey key pinned counted).map fun list => { s with list }
  | .adjustByDate key pinned => do
      let p ← s.list.getRow key
      let list ← s.list.adjustByDate s.sortKey p pinned
      some { s with list, stale := s.stale.filter (· ≠ key) }
  | .freeze => some { s with list := { s.list with frozen := true } }
  | .unfreeze pending =>
      if pending.isPerm s.list.pendingAdjust then
        (s.list.unfreeze s.sortKey pending).map fun list => { s with list }
      else none
  | .updateHeight key counted =>
      (s.list.updateHeight key counted).map fun list => { s with list }
  | .updateHeights counted => (s.list.updateHeights counted).map fun list => { s with list }
  | .moveToTop key => (s.list.moveToTop key).map fun list => { s with list }
  | .remove key =>
      (s.list.remove key).map fun list => { s with list, stale := s.stale.filter (· ≠ key) }

/-- The runs of an empty list, whatever sort keys the entries have. -/
def system : System (State κ) (Action κ) where
  init s := s.list = {} ∧ s.stale = []
  step s a s' := s.next a = some s'

end State

end DialogsList

end MessengerClient
