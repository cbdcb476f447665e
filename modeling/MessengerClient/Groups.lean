import MessengerClient.Lib.Dict
import MessengerClient.Lib.Moves
import MessengerClient.Lib.Runs
import MessengerClient.MsgId

/-!
# MessengerClient.Groups

`Data::Groups` of `data/data_groups.cpp`, the albums: the items of a group in a list that is
kept in the order of their ids while items come, go and get another id.

`refreshMessage` moves one item in a list where only that item may be out of its place;
`Increasing.exists_place` says that its swaps bring the item where it is due.  Two things
leave the order and the bound: a refreshed item that is not in its group is inserted
without the check that `registerMessage` makes, and the id of an item that is neither
regular, nor scheduled, nor uploading is not looked at.
-/

namespace MessengerClient

/-- `MessageGroupId`; it is empty when its value is zero. -/
structure MessageGroupId where
  peerAndScheduledFlag : UInt64 := 0
  value : UInt64 := 0
deriving DecidableEq, Repr

def MessageGroupId.empty (groupId : MessageGroupId) : Bool := groupId.value == 0

namespace Data

variable {ι : Type} [DecidableEq ι]

/-! ## Items and groups -/

/-- What the groups read of a `HistoryItem`. -/
structure GroupItem where
  id : MsgId
  groupId : MessageGroupId := {}
  /-- `media && media->canBeGrouped()` -/
  canBeGrouped : Bool := false
  regular : Bool := false
  scheduled : Bool := false
  uploading : Bool := false
deriving DecidableEq, Repr

def kMaxItemsInGroup : Nat := 10

/-- `Data::Groups` with the items that it has pointers `ι` to, and the items whose views were
asked to be refreshed. -/
structure Groups (ι : Type) where
  item : ι → GroupItem
  groups : Dict MessageGroupId (List ι) := []
  refreshed : List ι := []

namespace Groups

def isGrouped (s : Groups ι) (item : ι) : Bool :=
  if (s.item item).groupId.empty then false else (s.item item).canBeGrouped

def requestItemViewRefresh (s : Groups ι) (item : ι) : Groups ι :=
  { s with refreshed := s.refreshed ++ [item] }

def refreshViews (s : Groups ι) (items : List ι) : Groups ι :=
  { s with refreshed := s.refreshed ++ items }

/-- The position of the first item with a larger id. -/
def findPositionForItem (s : Groups ι) (group : List ι) (item : ι) : Nat :=
  group.findIdx fun other => (s.item item).id < (s.item other).id

def registerMessage (s : Groups ι) (item : ι) : Groups ι :=
  if !s.isGrouped item then
    s
  else
    let groupId := (s.item item).groupId
    let items := (s.groups.find? groupId).getD []
    if items.length < kMaxItemsInGroup then
      let items := items.insertIdx (s.findPositionForItem items item) item
      let s := { s with groups := s.groups.set groupId items }
      if items.length > 1 then s.refreshViews items else s
    else
      { s with groups := s.groups.set groupId items }

def unregisterMessage (s : Groups ι) (item : ι) : Groups ι :=
  let groupId := (s.item item).groupId
  if groupId.empty then
    s
  else
    match s.groups.find? groupId with
    | none => s
    | some items =>
        let left := items.filter (· ≠ item)
        if left.length = items.length then
          s
        else if left ≠ [] then
          { s with groups := s.groups.set groupId left }.refreshViews left
        else
          { s with groups := s.groups.erase groupId }

/-- `none` stands for `Unexpected`. -/
def refreshMessage (s : Groups ι) (item : ι) (justRefreshViews : Bool) : Option (Groups ι) :=
  if !s.isGrouped item then
    some ((s.unregisterMessage item).requestItemViewRefresh item)
  else if !(s.item item).regular && !(s.item item).scheduled && !(s.item item).uploading then
    some s
  else
    let groupId := (s.item item).groupId
    match s.groups.find? groupId with
    | none => some (s.registerMessage item)
    | some items =>
        if justRefreshViews then
          some (s.refreshViews items)
        else
          let keep (items : List ι) : Groups ι :=
            { s with groups := s.groups.set groupId items }.refreshViews items
          let position := s.findPositionForItem items item
          let current := items.idxOf item
          if current = items.length then
            some (keep (items.insertIdx position item))
          else if position = current + 1 then
            some s
          else if position > current + 1 then
            some (keep (swapForward (position - (current + 1)) current items))
          else if position < current then
            some (keep (swapBackward (current - position) current items))
          else
            none

/-! ## Runs -/

/-- `item` is in some group. -/
def registered (s : Groups ι) (item : ι) : Bool :=
  s.groups.any fun group => decide (item ∈ group.2)

/-- The members of the group of `item`. -/
def members (s : Groups ι) (item : ι) : List ι :=
  (s.groups.find? (s.item item).groupId).getD []

/-- No other member of the group has the id of `item`. -/
def uniqueId (s : Groups ι) (item : ι) : Bool :=
  (s.members item).all fun other => decide (other = item ∨ (s.item other).id ≠ (s.item item).id)

def withItem (s : Groups ι) (item : ι) (to_ : GroupItem) : Groups ι :=
  { s with item := Function.update s.item item to_ }

@[simp] theorem withItem_groups (s : Groups ι) (item : ι) (to_ : GroupItem) :
    (s.withItem item to_).groups = s.groups := rfl

@[simp] theorem withItem_item_self (s : Groups ι) (item : ι) (to_ : GroupItem) :
    (s.withItem item to_).item item = to_ := Function.update_self ..

theorem withItem_item_of_ne (s : Groups ι) {item x : ι} (to_ : GroupItem) (hne : x ≠ item) :
    (s.withItem item to_).item x = s.item x := Function.update_of_ne hne ..

/-- The calls, and what happens to the items between them. -/
inductive Action (ι : Type) where
  | registerMessage (item : ι)
  | unregisterMessage (item : ι)
  | refreshMessage (item : ι) (justRefreshViews : Bool)
  /-- The id and the state of an item change, and `refreshMessage(item, false)` is called. -/
  | changeId (item : ι) (to_ : GroupItem)
  /-- The media or the state of an item change; an item without a group may become any. -/
  | change (item : ι) (to_ : GroupItem)

/-- What the callers keep to: an item is registered once, the ids in a group are unique, and
an item that is in a group keeps its group and has its id changed by `changeId` only. -/
def allowed (s : Groups ι) : Action ι → Bool
  | .registerMessage item => !s.registered item && s.uniqueId item
  | .unregisterMessage _ => true
  | .refreshMessage item _ => s.uniqueId item
  | .changeId item to_ =>
      (!s.registered item || to_.groupId == (s.item item).groupId) &&
        (s.withItem item to_).uniqueId item
  | .change item to_ =>
      !s.registered item || to_.groupId == (s.item item).groupId && to_.id == (s.item item).id

def apply (s : Groups ι) : Action ι → Option (Groups ι)
  | .registerMessage item => some (s.registerMessage item)
  | .unregisterMessage item => some (s.unregisterMessage item)
  | .refreshMessage item justRefreshViews => s.refreshMessage item justRefreshViews
  | .changeId item to_ => (s.withItem item to_).refreshMessage item false
  | .change item to_ => some (s.withItem item to_)

def next (s : Groups ι) (a : Action ι) : Option (Groups ι) :=
  if s.allowed a then s.apply a else none

def system (ι : Type) [DecidableEq ι] : System (Groups ι) (Action ι) where
  init s := s.groups = []
  step s a s' := s.next a = some s'

/-- An album: its items are distinct, in the order of their ids, and not too many. -/
structure Album (s : Groups ι) (items : List ι) : Prop where
  distinct : items.Nodup
  sorted : Increasing (fun item => (s.item item).id) items
  nonempty : 1 ≤ items.length
  bounded : items.length ≤ kMaxItemsInGroup

/-- Every group is an album, and no call that may come is unexpected. -/
structure Kept (s : Groups ι) : Prop where
  albums : ∀ g items, s.groups.find? g = some items → s.Album items
  expected : ∀ a, s.allowed a → (s.apply a).isSome

/-- A refreshed item that is not in its group finds a place there, and one that is not looked
at is in its place. -/
def placed (s : Groups ι) (item : ι) : Bool :=
  let live := (s.item item).regular || (s.item item).scheduled || (s.item item).uploading
  let items := s.members item
  !s.isGrouped item ||
    if item ∈ items then
      live || s.findPositionForItem items item == items.idxOf item + 1
    else
      !live || items.length < kMaxItemsInGroup

def ok (s : Groups ι) : Action ι → Bool
  | .refreshMessage item false => s.placed item
  | .changeId item to_ => (s.withItem item to_).placed item
  | _ => true

/-! ## One group -/

/-- The group `g` is an album of items that are its own. -/
structure Group (s : Groups ι) (g : MessageGroupId) (items : List ι) : Prop
    extends s.Album items where
  member : ∀ x ∈ items, (s.item x).groupId = g
  real : g.empty = false

/-- The group `g` is an album of its own items but for the place of `item`. -/
structure Loose (s : Groups ι) (item : ι) (g : MessageGroupId) (items : List ι) : Prop where
  distinct : items.Nodup
  rest : Increasing (fun item => (s.item item).id) (items.filter (· ≠ item))
  nonempty : 1 ≤ items.length
  bounded : items.length ≤ kMaxItemsInGroup
  member : ∀ x ∈ items, (s.item x).groupId = g
  real : g.empty = false

variable {s s' : Groups ι} {item : ι} {g : MessageGroupId} {items : List ι}

theorem Group.loose (h : s.Group g items) (item : ι) : s.Loose item g items where
  distinct := h.distinct
  rest := h.sorted.sublist List.filter_sublist
  nonempty := h.nonempty
  bounded := h.bounded
  member := h.member
  real := h.real

theorem filter_eq_self (h : item ∉ items) : items.filter (· ≠ item) = items := by
  refine List.filter_eq_self.mpr fun x hx => decide_eq_true ?_
  rintro rfl
  exact h hx

theorem Loose.group (h : s.Loose item g items) (hitem : item ∉ items) : s.Group g items where
  distinct := h.distinct
  sorted := filter_eq_self hitem ▸ h.rest
  nonempty := h.nonempty
  bounded := h.bounded
  member := h.member
  real := h.real

/-- A group does not depend on what an item that is not in it becomes, nor, but for its
place, on the id of one that is. -/
theorem Group.withItem {to_ : GroupItem} (h : s.Group g items)
    (hto : item ∈ items → to_.groupId = (s.item item).groupId) :
    (s.withItem item to_).Loose item g items where
  distinct := h.distinct
  rest := by
    refine (h.loose item).rest.imp_of_mem fun hx hy hlt => ?_
    have hx := of_decide_eq_true (List.mem_filter.mp hx).2
    have hy := of_decide_eq_true (List.mem_filter.mp hy).2
    simp only [withItem_item_of_ne s to_ hx, withItem_item_of_ne s to_ hy]
    exact hlt
  nonempty := h.nonempty
  bounded := h.bounded
  member x hx := by
    by_cases heq : x = item
    · subst heq
      rw [withItem_item_self, hto hx]
      exact h.member x hx
    · rw [withItem_item_of_ne s to_ heq]
      exact h.member x hx
  real := h.real

/-- The list around an item, and what is left without it. -/
theorem Loose.exists_around (h : s.Loose item g items) (hitem : item ∈ items) :
    ∃ l₁ l₂, items = l₁ ++ item :: l₂ ∧ items.idxOf item = l₁.length ∧ item ∉ l₁ ++ l₂ ∧
      Increasing (fun item => (s.item item).id) (l₁ ++ l₂) := by
  obtain ⟨l₁, l₂, rfl⟩ := List.append_of_mem hitem
  have hnodup := List.nodup_middle.mp h.distinct
  have hnot := (List.nodup_cons.mp hnodup).1
  have h₁ : item ∉ l₁ := fun hmem => hnot (List.mem_append_left l₂ hmem)
  have h₂ : item ∉ l₂ := fun hmem => hnot (List.mem_append_right l₁ hmem)
  have hrest := h.rest
  rw [List.filter_append, List.filter_cons_of_neg (by simp), filter_eq_self h₁,
    filter_eq_self h₂] at hrest
  refine ⟨l₁, l₂, rfl, ?_, hnot, hrest⟩
  rw [List.idxOf_append_of_notMem h₁, List.idxOf_cons_self, Nat.add_zero]

/-- The same items in order are a group. -/
theorem Loose.of_perm {items' : List ι} (h : s.Loose item g items) (hperm : items'.Perm items)
    (hsorted : Increasing (fun item => (s.item item).id) items') : s.Group g items' where
  distinct := hperm.nodup_iff.mpr h.distinct
  sorted := hsorted
  nonempty := hperm.length_eq ▸ h.nonempty
  bounded := hperm.length_eq ▸ h.bounded
  member x hx := h.member x (hperm.subset hx)
  real := h.real

/-! ## The groups after a call -/

/-- Every group is an album of its own items. -/
def Inv (s : Groups ι) : Prop := ∀ g items, s.groups.find? g = some items → s.Group g items

/-- Every group is an album of its own items but for the place of `item`. -/
def InvBut (s : Groups ι) (item : ι) : Prop :=
  ∀ g items, s.groups.find? g = some items → s.Loose item g items

theorem Inv.but (h : s.Inv) (item : ι) : s.InvBut item := fun g items hg => (h g items hg).loose item

/-- An item is in no group but its own. -/
theorem InvBut.inv (h : s.InvBut item)
    (hown : ∀ items, s.groups.find? (s.item item).groupId = some items →
      s.Group (s.item item).groupId items) : s.Inv := by
  intro g items hg
  by_cases hitem : item ∈ items
  · have hgroup := (h g items hg).member item hitem
    rw [← hgroup] at hg ⊢
    exact hown items hg
  · exact (h g items hg).group hitem

/-- The items stay, the group of `item` becomes `to_`, and the others are left alone. -/
structure Writes (s s' : Groups ι) (item : ι) (to_ : Option (List ι)) : Prop where
  same : s'.item = s.item
  groups : ∀ g, s'.groups.find? g =
    if (s.item item).groupId = g then to_ else s.groups.find? g

omit [DecidableEq ι] in
theorem Group.congr (h : s.Group g items) (hitem : s'.item = s.item) : s'.Group g items := by
  obtain ⟨item, groups, refreshed⟩ := s
  obtain ⟨item', groups', refreshed'⟩ := s'
  cases hitem
  exact ⟨⟨h.distinct, h.sorted, h.nonempty, h.bounded⟩, h.member, h.real⟩

omit [DecidableEq ι] in
theorem Inv.congr (h : s.Inv) (hitem : s'.item = s.item) (hgroups : s'.groups = s.groups) :
    s'.Inv :=
  fun g items hg => (h g items (hgroups ▸ hg)).congr hitem

theorem InvBut.writes {to_ : Option (List ι)} (h : s.InvBut item) (hw : Writes s s' item to_)
    (hto : ∀ items, to_ = some items → s.Group (s.item item).groupId items) : s'.Inv := by
  intro g items hg
  rw [hw.groups] at hg
  refine Group.congr ?_ hw.same
  split at hg
  · next heq => exact heq ▸ hto items hg
  · next hne =>
    refine (h g items hg).group fun hitem => hne ?_
    exact (h g items hg).member item hitem

omit [DecidableEq ι] in
theorem writes_set (s : Groups ι) (item : ι) (items refreshed : List ι) :
    Writes s { s with
      groups := s.groups.set (s.item item).groupId items, refreshed := refreshed }
      item (some items) where
  same := rfl
  groups _ := Dict.find?_set

omit [DecidableEq ι] in
theorem writes_erase (s : Groups ι) (item : ι) :
    Writes s { s with groups := s.groups.erase (s.item item).groupId } item none where
  same := rfl
  groups _ := Dict.find?_erase

/-! ## The calls -/

theorem uniqueId_iff : s.uniqueId item = true ↔
    ∀ x ∈ s.members item, x ≠ item → (s.item x).id ≠ (s.item item).id := by
  rw [uniqueId, List.all_eq_true]
  refine forall₂_congr fun x _ => ?_
  rw [decide_eq_true_eq]
  exact or_iff_not_imp_left

omit [DecidableEq ι] in
theorem members_eq (hg : s.groups.find? (s.item item).groupId = some items) :
    s.members item = items := by
  rw [members, hg, Option.getD_some]

omit [DecidableEq ι] in
theorem real_of_isGrouped (h : s.isGrouped item = true) :
    (s.item item).groupId.empty = false := by
  rw [isGrouped] at h
  split at h
  · cases h
  · next hreal => exact Bool.eq_false_of_not_eq_true hreal

/-- **An insertion** where there is room for one more item. -/
theorem InvBut.insertIdx (h : s.InvBut item) (hnot : item ∉ s.members item)
    (hunique : s.uniqueId item = true) (hgrouped : s.isGrouped item = true)
    (hroom : (s.members item).length < kMaxItemsInGroup) :
    s.Group (s.item item).groupId
      ((s.members item).insertIdx (s.findPositionForItem (s.members item) item) item) := by
  have hold : Increasing (fun item => (s.item item).id) (s.members item) ∧
      ∀ x ∈ s.members item, (s.item x).groupId = (s.item item).groupId := by
    cases hg : s.groups.find? (s.item item).groupId with
    | none =>
      rw [members, hg]
      exact ⟨List.Pairwise.nil, by simp⟩
    | some items =>
      rw [members_eq hg] at hnot ⊢
      have hgroup := (h _ _ hg).group hnot
      exact ⟨hgroup.sorted, hgroup.member⟩
  have hlength : s.findPositionForItem (s.members item) item ≤ (s.members item).length :=
    List.findIdx_le_length
  have hsorted := hold.1.insertIdx (x := item) fun x hx =>
    uniqueId_iff.mp hunique x hx fun heq => hnot (heq ▸ hx)
  exact
    { distinct := hsorted.nodup
      sorted := hsorted
      nonempty := by
        rw [List.length_insertIdx_of_le_length hlength]
        omega
      bounded := by
        rw [List.length_insertIdx_of_le_length hlength]
        exact hroom
      member := by
        intro x hx
        obtain rfl | hx := (List.mem_insertIdx hlength).mp hx
        · rfl
        · exact hold.2 x hx
      real := real_of_isGrouped hgrouped }

theorem InvBut.own (h : s.InvBut item) (hnot : item ∉ s.members item) : s.Inv := by
  refine h.inv fun items hg => (h _ _ hg).group ?_
  rwa [members_eq hg] at hnot

theorem InvBut.registerMessage (h : s.InvBut item) (hnot : item ∉ s.members item)
    (hunique : s.uniqueId item = true) : (s.registerMessage item).Inv := by
  unfold Groups.registerMessage
  split
  · exact h.own hnot
  · next hgrouped =>
    rw [Bool.not_eq_true, Bool.not_eq_false'] at hgrouped
    dsimp only
    split
    · next hroom =>
      have hgroup := h.insertIdx hnot hunique hgrouped hroom
      split
      · exact h.writes (writes_set s item _ _) fun items heq => Option.some.inj heq ▸ hgroup
      · exact h.writes (writes_set s item _ s.refreshed) fun items heq =>
          Option.some.inj heq ▸ hgroup
    · next hroom =>
      refine h.writes (writes_set s item _ s.refreshed) fun items heq => ?_
      cases hg : s.groups.find? (s.item item).groupId with
      | none =>
        rw [hg] at hroom
        exact absurd (show 0 < kMaxItemsInGroup by decide) hroom
      | some items' =>
        rw [members_eq hg] at hnot
        rw [hg, Option.getD_some] at heq
        cases heq
        exact (h _ _ hg).group hnot

theorem InvBut.unregisterMessage (h : s.InvBut item) : (s.unregisterMessage item).Inv := by
  unfold Groups.unregisterMessage
  dsimp only
  split
  · next hempty =>
    refine h.inv fun items hg => ?_
    rw [(h _ _ hg).real] at hempty
    cases hempty
  · cases hg : s.groups.find? (s.item item).groupId with
    | none => exact h.inv fun items heq => absurd (hg.symm.trans heq) (Option.some_ne_none _).symm
    | some items =>
      have hloose := h _ _ hg
      dsimp only
      split
      · next hlength =>
        have hsame : items.filter (· ≠ item) = items :=
          List.filter_sublist.eq_of_length hlength
        refine h.own fun hitem => ?_
        rw [members_eq hg, ← hsame] at hitem
        exact of_decide_eq_true (List.mem_filter.mp hitem).2 rfl
      · split
        · next hleft =>
          refine h.writes (writes_set s item _ _) fun items' heq => ?_
          cases heq
          exact
            { distinct := hloose.distinct.filter _
              sorted := hloose.rest
              nonempty := List.length_pos_of_ne_nil hleft
              bounded := (List.length_filter_le _ _).trans hloose.bounded
              member := fun x hx => hloose.member x (List.mem_filter.mp hx).1
              real := hloose.real }
        · exact h.writes (writes_erase s item) fun items' heq => by cases heq

/-- **An item of a group** is where it is due, or swaps carry it there. -/
theorem InvBut.exists_place (h : s.InvBut item)
    (hg : s.groups.find? (s.item item).groupId = some items) (hitem : item ∈ items)
    (hunique : s.uniqueId item = true) :
    let position := s.findPositionForItem items item
    let current := items.idxOf item
    current < items.length ∧ ∃ items', s.Group (s.item item).groupId items' ∧
      (position = current + 1 ∧ items' = items ∨
        position > current + 1 ∧
          swapForward (position - (current + 1)) current items = items' ∨
        position < current ∧ swapBackward (current - position) current items = items') := by
  intro position current
  have hloose := h _ _ hg
  have hne := uniqueId_iff.mp hunique
  rw [members_eq hg] at hne
  obtain ⟨l₁, l₂, rfl, hindex, hnot, hrest⟩ := hloose.exists_around hitem
  refine ⟨List.idxOf_lt_length_of_mem hitem, ?_⟩
  obtain ⟨front, back, heq, hsorted, hcases⟩ := hrest.exists_place (x := item) fun y hy =>
    hne y (List.perm_middle.symm.subset (List.mem_cons_of_mem item hy)) fun heq => hnot (heq ▸ hy)
  have hperm : (front ++ item :: back).Perm (l₁ ++ item :: l₂) :=
    (List.perm_middle.trans (heq ▸ .refl _)).trans List.perm_middle.symm
  rw [show current = l₁.length from hindex]
  exact ⟨front ++ item :: back, hloose.of_perm hperm hsorted, hcases⟩

theorem InvBut.passed (h : s.InvBut item) (hunique : s.uniqueId item = true)
    (hplace : item ∈ s.members item →
      s.findPositionForItem (s.members item) item = (s.members item).idxOf item + 1) : s.Inv := by
  refine h.inv fun items hg => ?_
  rw [members_eq hg] at hplace
  by_cases hitem : item ∈ items
  · obtain ⟨-, items', hgroup, ⟨-, rfl⟩ | ⟨hlt, -⟩ | ⟨hlt, -⟩⟩ := h.exists_place hg hitem hunique
    · exact hgroup
    · have := hplace hitem
      omega
    · have := hplace hitem
      omega
  · exact (h _ _ hg).group hitem

/-- **A refreshed item** finds its place, and no position is unexpected. -/
theorem InvBut.refreshMessage (h : s.InvBut item) (hunique : s.uniqueId item = true) :
    ∃ s', s.refreshMessage item false = some s' ∧ (s.placed item = true → s'.Inv) := by
  unfold Groups.refreshMessage placed
  cases hgrouped : s.isGrouped item with
  | false => exact ⟨_, rfl, fun _ => h.unregisterMessage.congr rfl rfl⟩
  | true =>
    rw [Bool.not_true, if_neg Bool.false_ne_true, ← Bool.not_or, ← Bool.not_or]
    cases hlive : (s.item item).regular || (s.item item).scheduled || (s.item item).uploading with
    | false =>
      refine ⟨s, rfl, fun hplaced => h.passed hunique fun hitem => ?_⟩
      simpa [hitem] using hplaced
    | true =>
      rw [Bool.not_true, if_neg Bool.false_ne_true]
      cases hg : s.groups.find? (s.item item).groupId with
      | none =>
        simp only [hg]
        refine ⟨_, rfl, fun _ => h.registerMessage ?_ hunique⟩
        rw [members, hg]
        exact List.not_mem_nil
      | some items =>
        have hwrites {items' : List ι} (hgroup : s.Group (s.item item).groupId items') :=
          h.writes (writes_set s item items' (s.refreshed ++ items')) fun _ heq =>
            Option.some.inj heq ▸ hgroup
        simp only [hg]
        rw [if_neg Bool.false_ne_true, members_eq hg]
        by_cases hitem : item ∈ items
        · obtain ⟨hlength, items', hgroup, hcases⟩ := h.exists_place hg hitem hunique
          rw [if_neg (Nat.ne_of_lt hlength)]
          obtain ⟨heq, rfl⟩ | ⟨hlt, rfl⟩ | ⟨hlt, rfl⟩ := hcases
          · rw [if_pos heq]
            exact ⟨s, rfl, fun _ => h.inv fun _ hg' => Option.some.inj (hg.symm.trans hg') ▸ hgroup⟩
          · rw [if_neg (Nat.ne_of_gt hlt), if_pos hlt]
            exact ⟨_, rfl, fun _ => hwrites hgroup⟩
          · rw [if_neg (by omega), if_neg (by omega), if_pos hlt]
            exact ⟨_, rfl, fun _ => hwrites hgroup⟩
        · rw [if_pos (List.idxOf_eq_length hitem), if_neg hitem]
          refine ⟨_, rfl, fun hplaced => hwrites ?_⟩
          have hinsert := h.insertIdx (members_eq hg ▸ hitem) hunique hgrouped
          rw [members_eq hg] at hinsert
          exact hinsert (of_decide_eq_true (by simpa using hplaced))

theorem Inv.refreshViews (h : s.Inv) (hunique : s.uniqueId item = true) :
    ∃ s', s.refreshMessage item true = some s' ∧ s'.Inv := by
  unfold Groups.refreshMessage
  cases hgrouped : s.isGrouped item with
  | false => exact ⟨_, rfl, (h.but item).unregisterMessage.congr rfl rfl⟩
  | true =>
    rw [Bool.not_true, if_neg Bool.false_ne_true]
    split
    · exact ⟨s, rfl, h⟩
    · cases hg : s.groups.find? (s.item item).groupId with
      | none =>
        simp only [hg]
        refine ⟨_, rfl, (h.but item).registerMessage ?_ hunique⟩
        rw [members, hg]
        exact List.not_mem_nil
      | some items =>
        simp only [hg]
        exact ⟨_, rfl, h.congr rfl rfl⟩

/-! ## Every run -/

theorem not_mem_of_not_registered (h : s.registered item = false)
    (hg : s.groups.find? g = some items) : item ∉ items := by
  intro hitem
  have hany : s.registered item = true :=
    List.any_eq_true.mpr ⟨(g, items), Dict.mem_of_find? hg, decide_eq_true hitem⟩
  rw [h] at hany
  cases hany

/-- An item that is in a group keeps it. -/
theorem Inv.withItem {to_ : GroupItem} (h : s.Inv)
    (hto : s.registered item = true → to_.groupId = (s.item item).groupId) :
    (s.withItem item to_).InvBut item := by
  intro g items hg
  refine (h g items hg).withItem fun hitem => hto ?_
  cases hreg : s.registered item with
  | true => rfl
  | false => exact absurd hitem (not_mem_of_not_registered hreg hg)

theorem Inv.change {to_ : GroupItem} (h : s.Inv)
    (hto : s.registered item = true →
      to_.groupId = (s.item item).groupId ∧ to_.id = (s.item item).id) :
    (s.withItem item to_).Inv := by
  intro g items hg
  have hloose := h.withItem (fun hreg => (hto hreg).1) g items hg
  by_cases hitem : item ∈ items
  · refine hloose.of_perm (.refl _) ((h g items hg).sorted.imp fun {a b} hlt => ?_)
    have hid : ∀ x, ((s.withItem item to_).item x).id = (s.item x).id := by
      intro x
      by_cases heq : x = item
      · rw [heq, withItem_item_self]
        refine (hto ?_).2
        exact List.any_eq_true.mpr ⟨(g, items), Dict.mem_of_find? hg, decide_eq_true hitem⟩
      · rw [withItem_item_of_ne s to_ heq]
    simp only [hid]
    exact hlt
  · exact hloose.group hitem

/-- **One call** is never unexpected, and keeps the groups where what is refreshed is
placed. -/
theorem Inv.apply {a : Action ι} (h : s.Inv) (ha : s.allowed a = true) :
    ∃ s', s.apply a = some s' ∧ (s.ok a = true → s'.Inv) := by
  cases a with
  | registerMessage item =>
    obtain ⟨hreg, hunique⟩ := (Bool.and_eq_true _ _).mp ha
    rw [Bool.not_eq_true'] at hreg
    refine ⟨_, rfl, fun _ => (h.but item).registerMessage ?_ hunique⟩
    unfold members
    cases hg : s.groups.find? (s.item item).groupId with
    | none => exact List.not_mem_nil
    | some items => exact not_mem_of_not_registered hreg hg
  | unregisterMessage item => exact ⟨_, rfl, fun _ => (h.but item).unregisterMessage⟩
  | refreshMessage item justRefreshViews =>
    cases justRefreshViews with
    | false => exact (h.but item).refreshMessage ha
    | true =>
      obtain ⟨s', heq, hs'⟩ := h.refreshViews ha
      exact ⟨s', heq, fun _ => hs'⟩
  | changeId item to_ =>
    obtain ⟨hgroup, hunique⟩ := (Bool.and_eq_true _ _).mp ha
    refine (h.withItem fun hreg => ?_).refreshMessage hunique
    simpa [hreg] using hgroup
  | change item to_ =>
    refine ⟨_, rfl, fun _ => h.change fun hreg => ?_⟩
    simpa [allowed, hreg] using ha

theorem Inv.kept (h : s.Inv) : s.Kept where
  albums g items hg := (h g items hg).toAlbum
  expected a ha := by
    obtain ⟨s', heq, -⟩ := h.apply ha
    rw [heq]
    rfl

/-- **Albums stay sorted and bounded** in the runs where every item that is refreshed finds
room in its group, and is looked at or in its place. -/
theorem kept_of_reached (h : (system ι).Reached (fun s a => s.ok a = true) s) : s.Kept := by
  refine (h.invariant ?_ ?_ : s.Inv).kept
  · intro s hinit g items hg
    rw [show s.groups = [] from hinit] at hg
    cases hg
  · intro s a s' hs hok hstep
    obtain ⟨hallowed, happly⟩ := Option.ite_none_right_eq_some.mp hstep
    obtain ⟨s'', heq, hinv⟩ := hs.apply hallowed
    rw [happly] at heq
    cases heq
    exact hinv hok

/-- Photos of one album, with their numbers as their ids. -/
def photos : Groups Nat where
  item n := { id := n, groupId := { value := 5 }, canBeGrouped := true, regular := true }

/-- Two photos that are uploaded, of which the first gets the larger id. -/
theorem kept_resorted :
    ∃ s : Groups Nat, s.groups.find? { value := 5 } = some [2, 1] ∧ s.Kept := by
  let sent : GroupItem := { photos.item 1 with id := 30 }
  have h₀ : (system Nat).Reached (fun s a => s.ok a = true) photos := .init rfl
  have h₁ : (system Nat).Reached (fun s a => s.ok a = true) (photos.registerMessage 1) :=
    .step (a := .registerMessage 1) h₀ rfl rfl
  have h₂ : (system Nat).Reached (fun s a => s.ok a = true)
      ((photos.registerMessage 1).registerMessage 2) :=
    .step (a := .registerMessage 2) h₁ rfl rfl
  have hnext : ((((photos.registerMessage 1).registerMessage 2).next (.changeId 1 sent)).map
      fun s => s.groups.find? { value := 5 }) = some (some [2, 1]) := rfl
  obtain ⟨s, hs, hg⟩ := Option.map_eq_some_iff.mp hnext
  exact ⟨s, hg, kept_of_reached (.step h₂ rfl hs)⟩

/-- An eleventh photo, which `registerMessage` turns away, is inserted when it is refreshed. -/
theorem not_kept_eleven :
    ∃ s : Groups Nat, (system Nat).Reachable s ∧ ¬ s.Kept := by
  let actions : List (Action Nat) :=
    (List.range 11).map .registerMessage ++ [.refreshMessage 10 false]
  have hrun : ((actions.foldlM next photos).map fun s => s.groups.find? { value := 5 }) =
      some (some (List.range 11)) := by decide +kernel
  obtain ⟨s, hs, hg⟩ := Option.map_eq_some_iff.mp hrun
  have hinit : (system Nat).Reachable photos := .init rfl
  refine ⟨s, hinit.foldlM (fun _ _ _ h => h) hs, fun h => ?_⟩
  exact absurd (h.albums _ _ hg).bounded (by decide)

end Groups

end Data

end MessengerClient
