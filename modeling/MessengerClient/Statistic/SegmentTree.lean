import MessengerClient.Lib.Summary

/-!
# MessengerClient.Statistic.SegmentTree

`Statistic::SegmentTree`: the largest and the least value of a chart between two indices, from a
heap of nodes that are ranges of the array, or from the array itself where it is short.

Reading or writing outside of the heap or of the array is `none`, and so is a heap whose size
is no `int`.  A sum is a plain integer: it is not read.
-/

namespace MessengerClient

namespace Statistic

abbrev ChartValue : Type := { v : Int // -2 ^ 63 ≤ v ∧ v < 2 ^ 63 }

namespace ChartValue

def ofInt (v : Int) (h : -2 ^ 63 ≤ v ∧ v < 2 ^ 63 := by decide) : ChartValue := ⟨v, h⟩

def zero : ChartValue := ofInt 0

/-- `std::numeric_limits<ChartValue>::max()`. -/
def largest : ChartValue := ofInt (2 ^ 63 - 1)

theorem le_largest (v : ChartValue) : v ≤ largest := by
  have hv := v.2.2
  show v.1 ≤ 2 ^ 63 - 1
  omega

end ChartValue

/-- A value that a range of the array was set to. -/
structure PendingVal where
  value : ChartValue := .zero
  available : Bool := false

namespace SegmentTree

structure Node where
  sum : Int := 0
  max : ChartValue := .zero
  min : ChartValue := .zero
  pendingVal : PendingVal := {}
  from_ : Int := 0
  to_ : Int := 0

/-- `Node::size`. -/
def Node.size (n : Node) : Int := n.to_ - n.from_ + 1

end SegmentTree

open SegmentTree in
structure SegmentTree where
  array : List ChartValue := []
  heap : List Node := []

namespace SegmentTree

def kMinArraySize : Nat := 30

variable (t : SegmentTree)

/-- The node of the range from `from_` on, after those of its halves. -/
def build (array : List ChartValue) (v from_ size : Nat) (heap : List Node) :
    Option (List Node) :=
  if v < heap.length then
    if size = 1 then do
      let value ← array[from_]?
      return heap.set v
        { from_, to_ := from_ + size - 1, sum := value.1, max := value, min := value }
    else if 1 < size then do
      let heap ← build array (2 * v) from_ (size / 2) heap
      let heap ← build array (2 * v + 1) (from_ + size / 2) (size - size / 2) heap
      let left ← heap[2 * v]?
      let right ← heap[2 * v + 1]?
      return heap.set v
        { from_, to_ := from_ + size - 1
          sum := left.sum + right.sum
          max := Max.max left.max right.max
          min := Min.min left.min right.min }
    else none
  else none
termination_by size

/-- `std::floor(std::log(n) / std::log(2.) + 1)` is the exact one. -/
def heapSize (n : Nat) : Nat := 2 * 2 ^ (Nat.log 2 n + 1)

/-- The constructor. -/
def ofArray (array : List ChartValue) : Option SegmentTree :=
  if array.length < kMinArraySize then some { array }
  else if heapSize array.length < 2 ^ 31 then
    (build array 1 0 array.length (List.replicate (heapSize array.length) {})).map fun heap =>
      { array, heap }
  else none

def contains (from1 to1 from2 to2 : Int) : Bool := from2 ≥ from1 && to2 ≤ to1

def intersects (from1 to1 from2 to2 : Int) : Bool :=
  (from1 ≤ from2 && to1 ≥ from2) || (from1 ≥ from2 && from1 ≤ to2)

/-- A node gets a value, with the first of its range in the array. -/
def change (v : Nat) (value : ChartValue) : Option SegmentTree := do
  let n ← t.heap[v]?
  if 0 ≤ n.from_ ∧ n.from_ < t.array.length then
    return {
      heap := t.heap.set v { n with
        pendingVal := { value, available := true }
        sum := n.size * value.1
        max := value
        min := value }
      array := t.array.set n.from_.toNat value }
  else none

def propagate (v : Nat) : Option SegmentTree := do
  let n ← t.heap[v]?
  if n.pendingVal.available then
    let t := { t with heap := t.heap.set v { n with pendingVal := {} } }
    let t ← t.change (2 * v) n.pendingVal.value
    t.change (2 * v + 1) n.pendingVal.value
  else return t

/-- What a query of the heap computes: the value that it takes of a node, how it puts two
together, and what stands for a node that it has nothing to do with. -/
structure Query where
  value : Node → ChartValue
  combine : ChartValue → ChartValue → ChartValue
  outside : ChartValue

/-- A query from a node down; with less fuel than levels below the node it is `none`, as one that
leaves the heap. -/
def query (q : Query) (from_ to_ : Int) : Nat → Nat → SegmentTree → Option (ChartValue × SegmentTree)
  | 0, _, _ => none
  | fuel + 1, v, t => do
      let n ← t.heap[v]?
      if n.pendingVal.available && contains n.from_ n.to_ from_ to_ then
        return (n.pendingVal.value, t)
      else if contains from_ to_ n.from_ n.to_ then
        return (q.value n, t)
      else if intersects from_ to_ n.from_ n.to_ then
        let t ← t.propagate v
        let (left, t) ← query q from_ to_ fuel (2 * v) t
        let (right, t) ← query q from_ to_ fuel (2 * v + 1) t
        return (q.combine left right, t)
      else
        return (q.outside, t)

/-- The loop over a short array. -/
def scan (q : Query) (array : List ChartValue) (from_ to_ : Int) : ChartValue :=
  let from_ := max from_ 0
  let to_ := min to_ (array.length - 1)
  ((array.drop from_.toNat).take (to_ + 1 - from_).toNat).foldl q.combine q.outside

def maxQuery : Query := { value := Node.max, combine := max, outside := .zero }

def minQuery : Query := { value := Node.min, combine := min, outside := .largest }

/-- What both queries do with their range. -/
def ask (q : Query) (from_ to_ : Int) : Option (ChartValue × SegmentTree) :=
  if t.array.length < kMinArraySize then some (scan q t.array from_ to_, t)
  else query q from_ to_ t.heap.length 1 t

def rMaxQ (from_ to_ : Int) : Option (ChartValue × SegmentTree) := t.ask maxQuery from_ to_

def rMinQ (from_ to_ : Int) : Option (ChartValue × SegmentTree) := t.ask minQuery from_ to_

end SegmentTree

end Statistic

end MessengerClient
