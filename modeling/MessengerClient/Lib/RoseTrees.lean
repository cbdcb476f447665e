import Mathlib

/-!
# MessengerClient.Lib.RoseTrees

Trees with any number of children, and passes over them.

A pass visits the nodes of a tree in preorder, with a state, and changes the label of each
(`visit`).  What it makes of the tree is what it makes of the list of its nodes
(`visit_eq_scan`).
-/

namespace MessengerClient

inductive RoseTree (α : Type) where
  | node (label : α) (children : List (RoseTree α))

namespace RoseTree

variable {α σ : Type}

def label : RoseTree α → α
  | .node label _ => label

def children : RoseTree α → List (RoseTree α)
  | .node _ children => children

@[simp] theorem label_node (a : α) (cs : List (RoseTree α)) : (node a cs).label = a := rfl

@[simp] theorem children_node (a : α) (cs : List (RoseTree α)) : (node a cs).children = cs := rfl

/-- **What is said of trees and of lists of trees** at once. -/
theorem both {p : RoseTree α → Prop} {ps : List (RoseTree α) → Prop}
    (hnode : ∀ a cs, ps cs → p (node a cs)) (hnil : ps [])
    (hcons : ∀ t ts, p t → ps ts → ps (t :: ts)) : (∀ t, p t) ∧ ∀ ts, ps ts := by
  have htree : ∀ t, p t := fun t => RoseTree.rec hnode hnil hcons t
  refine ⟨htree, fun ts => ?_⟩
  induction ts with
  | nil => exact hnil
  | cons t ts ih => exact hcons t ts (htree t) ih

/-- What holds of a tree if it holds of its children. -/
@[elab_as_elim] theorem induction {p : RoseTree α → Prop}
    (hnode : ∀ a cs, (∀ c ∈ cs, p c) → p (node a cs)) (t : RoseTree α) : p t :=
  (@both α p (fun ts => ∀ t ∈ ts, p t) hnode (fun _ h => by cases h)
    fun _ _ ht hts => List.forall_mem_cons.mpr ⟨ht, hts⟩).1 t

/-! ## Preorder -/

mutual

/-- The nodes of a tree, each before the ones below it. -/
def preorder : RoseTree α → List (RoseTree α)
  | .node a cs => .node a cs :: preorderAll cs

def preorderAll : List (RoseTree α) → List (RoseTree α)
  | [] => []
  | t :: ts => preorder t ++ preorderAll ts

end

def labels (t : RoseTree α) : List α := t.preorder.map label

theorem preorderAll_eq_flatMap (ts : List (RoseTree α)) :
    preorderAll ts = ts.flatMap preorder := by
  induction ts with
  | nil => rfl
  | cons t ts ih => rw [preorderAll, ih, List.flatMap_cons]

@[simp] theorem preorder_node (a : α) (cs : List (RoseTree α)) :
    preorder (node a cs) = node a cs :: cs.flatMap preorder := by
  rw [preorder, preorderAll_eq_flatMap]

@[simp] theorem labels_node (a : α) (cs : List (RoseTree α)) :
    labels (node a cs) = a :: cs.flatMap labels := by
  rw [labels, preorder_node, List.map_cons, List.map_flatMap]
  rfl

/-! ## Passes -/

mutual

/-- A pass in preorder. -/
def visit (step : RoseTree α → σ → α × σ) : RoseTree α → σ → RoseTree α × σ
  | .node a cs, s =>
    let here := step (.node a cs) s
    let below := visitAll step cs here.2
    (.node here.1 below.1, below.2)

def visitAll (step : RoseTree α → σ → α × σ) : List (RoseTree α) → σ → List (RoseTree α) × σ
  | [], s => ([], s)
  | t :: ts, s =>
    let first := visit step t s
    let rest := visitAll step ts first.2
    (first.1 :: rest.1, rest.2)

end

/-- A pass over a list. -/
def scan {β : Type} (step : β → σ → α × σ) : List β → σ → List α × σ
  | [], s => ([], s)
  | b :: bs, s => ((step b s).1 :: (scan step bs (step b s).2).1, (scan step bs (step b s).2).2)

theorem scan_append {β : Type} (step : β → σ → α × σ) (l r : List β) (s : σ) :
    scan step (l ++ r) s =
      ((scan step l s).1 ++ (scan step r (scan step l s).2).1,
        (scan step r (scan step l s).2).2) := by
  induction l generalizing s with
  | nil => rfl
  | cons b l ih => simp only [List.cons_append, scan, ih]

@[simp] theorem length_scan {β : Type} (step : β → σ → α × σ) (l : List β) (s : σ) :
    (scan step l s).1.length = l.length := by
  induction l generalizing s with
  | nil => rfl
  | cons b l ih => rw [scan, List.length_cons, ih, List.length_cons]

theorem scan_map {β γ : Type} (step : γ → σ → α × σ) (f : β → γ) (l : List β) (s : σ) :
    scan (fun b => step (f b)) l s = scan step (l.map f) s := by
  induction l generalizing s with
  | nil => rfl
  | cons b l ih => simp only [scan, List.map_cons, ih]

/-- What a pass leaves as it is. -/
theorem filterMap_scan {β γ : Type} {step : β → σ → α × σ} {f : α → Option γ} {g : β → Option γ}
    (h : ∀ b s, f (step b s).1 = g b) (l : List β) (s : σ) :
    (scan step l s).1.filterMap f = l.filterMap g := by
  induction l generalizing s with
  | nil => rfl
  | cons b l ih => rw [scan, List.filterMap_cons, List.filterMap_cons, ih, h]

/-- **A pass over a tree** is one over its nodes. -/
theorem visit_eq_scan (step : RoseTree α → σ → α × σ) :
    (∀ t s, ((visit step t s).1.labels, (visit step t s).2) = scan step t.preorder s) ∧
      ∀ ts s, ((visitAll step ts s).1.flatMap labels, (visitAll step ts s).2) =
        scan step (ts.flatMap preorder) s := by
  refine both (fun a cs ih s => ?_) (fun s => rfl) fun t ts ht hts s => ?_
  · have hbelow := ih (step (node a cs) s).2
    rw [Prod.ext_iff] at hbelow
    simp only [visit, labels_node, preorder_node, scan, ← hbelow.1, ← hbelow.2]
  · have hfirst := ht s
    have hrest := hts (visit step t s).2
    rw [Prod.ext_iff] at hfirst hrest
    simp only [visitAll, List.flatMap_cons, scan_append, ← hfirst.1, ← hfirst.2, ← hrest.1,
      ← hrest.2]

theorem labels_visit (step : RoseTree α → σ → α × σ) (t : RoseTree α) (s : σ) :
    (visit step t s).1.labels = (scan step t.preorder s).1 :=
  congrArg Prod.fst ((visit_eq_scan step).1 t s)

theorem visit_state (step : RoseTree α → σ → α × σ) (t : RoseTree α) (s : σ) :
    (visit step t s).2 = (scan step t.preorder s).2 :=
  congrArg Prod.snd ((visit_eq_scan step).1 t s)

/-- A pass that looks at the labels only. -/
theorem labels_visit_label (step : α → σ → α × σ) (t : RoseTree α) (s : σ) :
    (visit (fun t => step t.label) t s).1.labels = (scan step t.labels s).1 := by
  rw [labels_visit, scan_map, labels]

theorem visit_label_state (step : α → σ → α × σ) (t : RoseTree α) (s : σ) :
    (visit (fun t => step t.label) t s).2 = (scan step t.labels s).2 := by
  rw [visit_state, scan_map, labels]

end RoseTree

end MessengerClient
