import MessengerClient.RepliesList.Counters
import Mathlib

/-!
# MessengerClient.RepliesList.Viewer

What a viewer of a thread is shown: a window of the list around a message, and before it, where
the thread begins in the window, its root with a divider.

The counters of the window and the full count fit together as those of the list do.  The root
adds one to the full count; an album adds its size twice (`counted_injectRootMessage_iff`).
-/

namespace MessengerClient

namespace Data

namespace RepliesList

/-! ## Slices -/

/-- An id of the shown slice: of a message, or of the divider after the root. -/
inductive SliceId where
  | message (id : MsgId)
  | divider
deriving DecidableEq, Repr

def SliceId.message? : SliceId → Option MsgId
  | .message id => some id
  | .divider => none

structure MessagesSlice where
  ids : List SliceId := []
  nearestToAround : MsgId := 0
  skippedBefore : Option Int := none
  skippedAfter : Option Int := none
  fullCount : Option Int := none
deriving DecidableEq, Repr

/-- The ids of the messages of a slice. -/
def MessagesSlice.messages (slice : MessagesSlice) : List MsgId :=
  slice.ids.filterMap SliceId.message?

structure Viewer where
  slice : MessagesSlice := {}
  around : MsgId := 0
  limitBefore : Nat
  limitAfter : Nat
  injectedForRoot : Nat := 0
deriving DecidableEq, Repr

/-- The item of the root: its own topic, and the items of its album. -/
structure Root where
  topicRootId : MsgId
  group : Option (List MsgId) := none
deriving DecidableEq, Repr

/-- What a list asks of its owner: `lookupRoot()`, whether there is an owning topic, and the
read position of the history, for a megagroup that I am in and that is no forum. -/
structure Owner where
  root : Option Root
  owningTopic : Bool := false
  inboxReadTillId : Option MsgId := none
deriving DecidableEq, Repr

def ShowAtUnreadMsgId : MsgId := 0

/-- `ForumTopic::kGeneralId`. -/
def kGeneralId : MsgId := 1

/-! ## The root -/

/-- The slice gets the divider and the root, or its album, at the end. -/
def injectRootMessage (rootId : MsgId) (owner : Owner) (viewer : Viewer) : Viewer :=
  let viewer := { viewer with injectedForRoot := 0 }
  let slice := viewer.slice
  if slice.skippedBefore ≠ some 0 then
    viewer
  else
    match owner.root with
    | none => viewer
    | some root =>
      if rootId = kGeneralId ∨ root.topicRootId ≠ kGeneralId then
        viewer
      else
        let ids := slice.ids ++ [.divider]
        match root.group with
        | some items =>
          let fullCount := slice.fullCount.map (· + (items.length : Int))
          { viewer with
            slice := { slice with
              ids := ids ++ items.reverse.map .message
              fullCount := fullCount.map (· + (items.length : Int)) }
            injectedForRoot := items.length }
        | none =>
          { viewer with
            slice := { slice with
              ids := ids ++ [.message rootId]
              fullCount := slice.fullCount.map (· + 1) }
            injectedForRoot := 1 }

def injectRootMessageAndReverse (rootId : MsgId) (owner : Owner) (viewer : Viewer) : Viewer :=
  let viewer := injectRootMessage rootId owner viewer
  { viewer with slice := { viewer.slice with ids := viewer.slice.ids.reverse } }

/-! ## The window -/

def computeInboxReadTillFull (s : RepliesList) (owner : Owner) : MsgId :=
  match owner.inboxReadTillId with
  | some till => max s.inboxReadTillId till
  | none => s.inboxReadTillId

/-- The message that the window is cut around, zero for the end of the thread. -/
def aroundOf (s : RepliesList) (owner : Owner) (viewer : Viewer) : MsgId :=
  if viewer.around ≠ ShowAtUnreadMsgId then viewer.around
  else if owner.root.isSome then s.computeInboxReadTillFull owner
  else if owner.owningTopic then s.computeInboxReadTillFull owner
  else viewer.around

/-- The list before and from the position that the window is cut at. -/
def cutAt (s : RepliesList) (around : MsgId) : List MsgId × List MsgId :=
  if around ≠ 0 then lowerBound s.list around else (s.list, [])

/-- The first message before `around`, or rather the one in front of it in the window. -/
def nearestFrom (rootId around : MsgId) : Option MsgId → List MsgId → Option MsgId
  | _, [] => none
  | previous, id :: rest =>
    if id = rootId then nearestFrom rootId around (some id) rest
    else if id < around then some (previous.getD id)
    else nearestFrom rootId around (some id) rest

def useBefore (s : RepliesList) (around : MsgId) (viewer : Viewer) : Nat :=
  min (s.cutAt around).2.length (viewer.limitBefore + 1)

def useAfter (s : RepliesList) (around : MsgId) (viewer : Viewer) : Nat :=
  min (s.cutAt around).1.length viewer.limitAfter

/-- The slice of a viewer before the root comes to it, from the newest message to the oldest. -/
def sliceAround (s : RepliesList) (rootId around : MsgId) (viewer : Viewer) : MessagesSlice :=
  let newer := (s.cutAt around).1
  let older := (s.cutAt around).2
  let availableBefore := older.length
  let availableAfter := newer.length
  let useBefore := s.useBefore around viewer
  let useAfter := s.useAfter around viewer
  let window := newer.drop (availableAfter - useAfter) ++ older.take useBefore
  let ids := window.filter (· ≠ rootId)
  { ids := ids.map .message
    nearestToAround := (nearestFrom rootId around none window).getD (ids.getLast?.getD 0)
    skippedBefore := match s.skippedBefore with
      | some skipped => some (skipped + (availableBefore - useBefore : Nat))
      | none => viewer.slice.skippedBefore
    skippedAfter := match s.skippedAfter with
      | some skipped => some (skipped + (availableAfter - useAfter : Nat))
      | none => viewer.slice.skippedAfter
    fullCount := s.fullCount }

/-- The result, with the requests that are sent; `none` is a failed `Expects` of a request. -/
def buildFromData (s : RepliesList) (rootId : MsgId) (owner : Owner) (viewer : Viewer) :
    Option (Bool × RepliesList × Viewer) :=
  if s.creating ∨ s.list = [] ∧ s.skippedBefore = some 0 ∧ s.skippedAfter = some 0 then
    let slice : MessagesSlice :=
      { fullCount := some 0, skippedBefore := some 0, skippedAfter := some 0 }
    let viewer := { viewer with slice := slice, injectedForRoot := 0 }
    some (true, s, injectRootMessageAndReverse rootId owner viewer)
  else
    let around := s.aroundOf owner viewer
    if s.list = [] ∨ around = 0 ∧ s.skippedAfter ≠ some 0 ∨
        s.list.head?.any (around > ·) ∧ s.skippedAfter ≠ some 0 ∨
        around > 0 ∧ s.list.getLast?.any (around < ·) ∧ s.skippedBefore ≠ some 0 then
      (s.loadAround around).map fun s => (false, s, viewer)
    else
      let built := { viewer with slice := s.sliceAround rootId around viewer }
      let moreBefore := s.skippedBefore ≠ some 0 ∧
        s.useBefore around viewer < viewer.limitBefore + 1
      let moreAfter := s.skippedAfter ≠ some 0 ∧ s.useAfter around viewer < viewer.limitAfter
      let built := injectRootMessageAndReverse rootId owner built
      (if moreBefore then s.loadBefore else some s).bind fun s =>
        (if moreAfter then s.loadAfter else some s).map fun s => (true, s, built)

/-! ## What is right -/

/-- **A slice that counts every message once**: in increasing order, none twice, and with the
skipped ones they are all. -/
structure MessagesSlice.Right (slice : MessagesSlice) : Prop where
  increasing : slice.messages.Pairwise (· < ·)
  nodup : slice.ids.Nodup
  counted : ∀ before after, slice.skippedBefore = some before → slice.skippedAfter = some after →
    slice.fullCount = some (before + after + slice.messages.length)

/-- The root is shown as an album. -/
def Owner.Album (owner : Owner) (rootId : MsgId) : Prop :=
  rootId ≠ kGeneralId ∧ ∃ root items, owner.root = some root ∧ root.topicRootId = kGeneralId ∧
    root.group = some items ∧ items ≠ []

/-- The window reaches the beginning of the thread. -/
def ReachesTop (s : RepliesList) (owner : Owner) (viewer : Viewer) : Prop :=
  s.creating ∨ s.list = [] ∧ s.skippedBefore = some 0 ∧ s.skippedAfter = some 0 ∨
    s.skippedBefore = some 0 ∧
      (s.cutAt (s.aroundOf owner viewer)).2.length ≤ viewer.limitBefore + 1

/-- A window of a thread: ids above the root, from the newest to the oldest, counted. -/
structure MessagesSlice.Window (slice : MessagesSlice) (rootId : MsgId) (ids : List MsgId)
    (before after : Int) : Prop where
  ids_eq : slice.ids = ids.map .message
  descending : ids.Pairwise (· > ·)
  above : ∀ id ∈ ids, rootId < id
  skippedBefore : slice.skippedBefore = some before
  skippedAfter : slice.skippedAfter = some after
  fullCount : slice.fullCount = some (before + after + ids.length)

variable {s s' : RepliesList} {rootId around : MsgId} {owner : Owner} {viewer viewer' : Viewer}
  {slice : MessagesSlice} {ids : List MsgId} {before after : Int}

@[simp high] theorem filterMap_map_message (ids : List MsgId) :
    (ids.map SliceId.message).filterMap SliceId.message? = ids := by
  induction ids with
  | nil => rfl
  | cons id ids ih => exact congrArg (id :: ·) ih

@[simp] theorem message?_divider : SliceId.divider.message? = none := rfl

theorem nodup_map_message : (ids.map SliceId.message).Nodup ↔ ids.Nodup :=
  List.nodup_map_iff fun _ _ => SliceId.message.inj

namespace MessagesSlice.Window

variable (h : slice.Window rootId ids before after)

include h

theorem nodup : ids.Nodup := h.descending.imp fun hgt => ne_of_gt hgt

/-- A window is right as it is. -/
theorem right : ({ slice with ids := slice.ids.reverse } : MessagesSlice).Right where
  increasing := by
    simpa [messages, h.ids_eq, List.filterMap_cons] using List.pairwise_reverse.mpr h.descending
  nodup := by simpa [h.ids_eq, nodup_map_message] using h.nodup
  counted := by
    intro before' after' hbefore hafter
    obtain rfl := Option.some.inj (h.skippedBefore.symm.trans hbefore)
    obtain rfl := Option.some.inj (h.skippedAfter.symm.trans hafter)
    simpa [messages, h.ids_eq, List.filterMap_cons] using h.fullCount

/-- A window is right with older messages in front of it, when the full count has them once. -/
theorem right_injected {items : List MsgId} (hincreasing : items.Pairwise (· < ·))
    (hbelow : ∀ x ∈ items, ∀ y ∈ ids, x < y) :
    ({ slice with
      ids := (slice.ids ++ [SliceId.divider] ++ items.reverse.map SliceId.message).reverse
      fullCount := slice.fullCount.map (· + (items.length : Int)) } : MessagesSlice).Right where
  increasing := by
    have hall := List.pairwise_append.mpr ⟨hincreasing, List.pairwise_reverse.mpr h.descending,
      fun x hx y hy => hbelow x hx y (List.mem_reverse.mp hy)⟩
    simpa [messages, h.ids_eq, List.filterMap_cons] using hall
  nodup := by
    have hitems : items.Nodup := hincreasing.imp fun hlt => ne_of_lt hlt
    have hdisjoint : ∀ x ∈ items, x ∉ ids := fun x hx hmem => lt_irrefl x (hbelow x hx x hmem)
    rw [List.nodup_reverse, h.ids_eq, List.append_assoc]
    refine (nodup_map_message.mpr h.nodup).append ?_ ?_
    · simpa [nodup_map_message] using hitems
    · intro x hx hx'
      obtain ⟨id, hid, rfl⟩ := List.mem_map.mp hx
      simp only [List.singleton_append, List.mem_cons, reduceCtorEq, List.mem_map,
        SliceId.message.injEq, exists_eq_right, List.mem_reverse, false_or] at hx'
      exact hdisjoint id hx' hid
  counted := by
    intro before' after' hbefore hafter
    obtain rfl := Option.some.inj (h.skippedBefore.symm.trans hbefore)
    obtain rfl := Option.some.inj (h.skippedAfter.symm.trans hafter)
    simp [messages, h.ids_eq, List.filterMap_cons, h.fullCount]
    omega

end MessagesSlice.Window

/-- **The root is counted once, an album twice.** -/
theorem right_injectRootMessage_iff (h : viewer.slice.Window rootId ids before after) :
    (injectRootMessageAndReverse rootId owner viewer).slice.Right ↔
      (before = 0 → ¬owner.Album rootId) := by
  unfold injectRootMessageAndReverse injectRootMessage
  dsimp only
  split
  · next hne =>
    exact iff_of_true h.right fun hzero => absurd (hzero ▸ h.skippedBefore) hne
  next htop =>
  obtain rfl : before = 0 := Option.some.inj (h.skippedBefore.symm.trans (not_not.mp htop))
  cases hroot : owner.root with
  | none =>
      refine iff_of_true h.right fun _ halbum => ?_
      obtain ⟨-, root, items, hsome, -⟩ := halbum
      exact absurd (hroot.symm.trans hsome) (by simp)
  | some root =>
      dsimp only
      split
      · next hother =>
        refine iff_of_true h.right fun _ halbum => ?_
        obtain ⟨hgeneral, root', items, hsome, htopic, -⟩ := halbum
        obtain rfl := Option.some.inj (hroot.symm.trans hsome)
        exact hother.elim hgeneral fun hne => hne htopic
      next hown =>
      rw [not_or, not_not] at hown
      cases hgroup : root.group with
      | none =>
          refine iff_of_true ?_ fun _ halbum => ?_
          · simpa using h.right_injected (List.pairwise_singleton _ rootId) (by simpa using h.above)
          · obtain ⟨-, root', items, hsome, -, hitems, -⟩ := halbum
            obtain rfl := Option.some.inj (hroot.symm.trans hsome)
            exact absurd (hgroup.symm.trans hitems) (by simp)
      | some items =>
          by_cases hnil : items = []
          · subst hnil
            refine iff_of_true ?_ fun _ halbum => ?_
            · simpa using h.right_injected List.Pairwise.nil (by simp)
            · obtain ⟨-, root', items, hsome, -, hitems, hne⟩ := halbum
              obtain rfl := Option.some.inj (hroot.symm.trans hsome)
              exact hne (Option.some.inj (hitems.symm.trans hgroup))
          · refine iff_of_false (fun hright => ?_) fun hnot =>
              hnot rfl ⟨hown.1, root, items, hroot, hown.2, hgroup, hnil⟩
            -- the items are counted twice
            have hcounted := hright.counted 0 after h.skippedBefore h.skippedAfter
            have hpos := List.length_pos_iff.mpr hnil
            simp [MessagesSlice.messages, h.ids_eq, List.filterMap_cons, h.fullCount] at hcounted
            omega

/-! ## Building -/

/-- Counters that are all known and fit the list of a thread, whose messages answer the root. -/
structure Known (s : RepliesList) (rootId : MsgId) (before after : Int) : Prop where
  descending : s.list.Pairwise (· > ·)
  above : ∀ id ∈ s.list, rootId < id
  skippedBefore : s.skippedBefore = some before
  skippedAfter : s.skippedAfter = some after
  nonneg : 0 ≤ before
  fullCount : s.fullCount = some (before + s.list.length + after)

theorem cutAt_append (s : RepliesList) (around : MsgId) :
    (s.cutAt around).1 ++ (s.cutAt around).2 = s.list := by
  unfold cutAt
  split
  · exact lowerBound_append _ _
  · exact List.append_nil _

/-- What is cut out of a list is a part of it, and the rest is skipped. -/
theorem window_sublist (l₁ l₂ : List MsgId) (n m : Nat) :
    (l₁.drop n ++ l₂.take m).Sublist (l₁ ++ l₂) :=
  (List.drop_sublist _ _).append (List.take_sublist _ _)

theorem Known.window (h : s.Known rootId before after) (around : MsgId) (viewer : Viewer) :
    ∃ ids before' after', (s.sliceAround rootId around viewer).Window rootId ids before' after' ∧
      (before' = 0 ↔ before = 0 ∧ (s.cutAt around).2.length ≤ viewer.limitBefore + 1) := by
  have hsplit := s.cutAt_append around
  have hlength := congrArg List.length hsplit
  unfold sliceAround useBefore useAfter
  rw [h.skippedBefore, h.skippedAfter]
  generalize (s.cutAt around).1 = newer, (s.cutAt around).2 = older at hsplit hlength
  rw [List.length_append] at hlength
  have hsub := hsplit ▸ window_sublist newer older
    (newer.length - min newer.length viewer.limitAfter)
    (min older.length (viewer.limitBefore + 1))
  have habove := fun id hid => h.above id (hsub.subset hid)
  refine ⟨_, _, _, ⟨rfl, (h.descending.sublist hsub).filter _,
    fun id hid => habove id (List.mem_of_mem_filter hid), rfl, rfl, ?_⟩, ?_⟩
  · rw [List.filter_eq_self.mpr fun id hid => decide_eq_true (ne_of_gt (habove id hid)),
      h.fullCount]
    simp only [List.length_append, List.length_drop, List.length_take, Option.some.injEq]
    omega
  · have hnonneg := h.nonneg
    omega

/-- **The slice is right**, except where an album is shown for the root. -/
theorem right_buildFromData_iff (h : s.Known rootId before after)
    (hbuild : s.buildFromData rootId owner viewer = some (true, s', viewer')) :
    viewer'.slice.Right ↔ (s.ReachesTop owner viewer → ¬owner.Album rootId) := by
  unfold buildFromData at hbuild
  split at hbuild
  · next hempty =>
    -- nothing but the root is shown
    obtain ⟨-, hpair⟩ := Prod.mk.inj (Option.some.inj hbuild)
    obtain ⟨-, rfl⟩ := Prod.mk.inj hpair
    have htop : s.ReachesTop owner viewer := by
      rw [ReachesTop, ← or_assoc]
      exact .inl hempty
    have hwindow : MessagesSlice.Window
        { fullCount := some 0, skippedBefore := some 0, skippedAfter := some 0 } rootId [] 0 0 :=
      ⟨rfl, List.Pairwise.nil, by simp, rfl, rfl, rfl⟩
    refine (right_injectRootMessage_iff hwindow).trans ?_
    exact ⟨fun hnot _ => hnot rfl, fun hnot _ => hnot htop⟩
  next hnonempty =>
  dsimp only at hbuild
  split at hbuild
  · obtain ⟨s₁, -, hsame⟩ := Option.map_eq_some_iff.mp hbuild
    exact Bool.noConfusion (congrArg Prod.fst hsame)
  · obtain ⟨s₁, -, hmap⟩ := Option.bind_eq_some_iff.mp hbuild
    obtain ⟨s₂, -, hsame⟩ := Option.map_eq_some_iff.mp hmap
    obtain ⟨-, hpair⟩ := Prod.mk.inj hsame
    obtain ⟨-, rfl⟩ := Prod.mk.inj hpair
    obtain ⟨ids, before', after', hwindow, hzero⟩ := h.window (s.aroundOf owner viewer) viewer
    refine (right_injectRootMessage_iff hwindow).trans ?_
    rw [hzero, ReachesTop, h.skippedBefore, Option.some_inj]
    refine ⟨fun hnot htop => ?_, fun hnot htop => hnot (.inr (.inr htop))⟩
    obtain hcreating | hempty | htop := htop
    · exact absurd (.inl hcreating) hnonempty
    · exact absurd (.inr ⟨hempty.1, h.skippedBefore.trans (congrArg some hempty.2.1), hempty.2.2⟩)
        hnonempty
    · exact hnot htop

/-- A thread of two messages, all loaded. -/
def twoLoaded : RepliesList where
  list := [9, 7]
  skippedBefore := some 0
  skippedAfter := some 0
  fullCount := some 2

theorem known_twoLoaded : twoLoaded.Known 5 0 0 :=
  ⟨by decide, by decide, rfl, rfl, le_rfl, rfl⟩

def viewerOfTen : Viewer := { around := 7, limitBefore := 10, limitAfter := 10 }

def singleRoot : Owner := { root := some { topicRootId := 1 } }

def albumRoot : Owner := { root := some { topicRootId := 1, group := some [5, 6] } }

/-- A single root is counted once. -/
theorem right_buildFromData_single :
    ∃ viewer, twoLoaded.buildFromData 5 singleRoot viewerOfTen = some (true, twoLoaded, viewer) ∧
      viewer.slice.Right := by
  have hbuild : ∃ viewer,
      twoLoaded.buildFromData 5 singleRoot viewerOfTen = some (true, twoLoaded, viewer) := ⟨_, rfl⟩
  obtain ⟨viewer, hbuild⟩ := hbuild
  refine ⟨viewer, hbuild, (right_buildFromData_iff known_twoLoaded hbuild).mpr ?_⟩
  rintro - ⟨-, root, items, ⟨⟩, -, ⟨⟩, -⟩

/-- An album of two is counted twice: the full count is six for four messages. -/
theorem not_right_album :
    twoLoaded.Known 5 0 0 ∧
    ∃ viewer, twoLoaded.buildFromData 5 albumRoot viewerOfTen = some (true, twoLoaded, viewer) ∧
      viewer.slice.fullCount = some 6 ∧ viewer.slice.messages = [5, 6, 7, 9] ∧
      ¬viewer.slice.Right := by
  refine ⟨known_twoLoaded, _, rfl, by decide, by decide,
    fun hright => ?_⟩
  exact absurd (hright.counted 0 0 rfl rfl) (by decide)

end RepliesList

end Data

end MessengerClient
