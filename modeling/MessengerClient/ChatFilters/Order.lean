import MessengerClient.ChatFilters
import MessengerClient.Lib.Moves

/-!
# MessengerClient.ChatFilters.Order

`Data::ChatFilters` and the filters that the server has: `received`, which makes the list that
of the server, and `applyOrder`, which puts it in an order.

A chat is its history, and the histories behind the peers of the server are those that the
owner finds.  The chat lists of the filters, which `applyChange` feeds, are not part of the
list of filters.
-/

namespace MessengerClient

namespace Data

namespace ChatFilter

/-- `ChatFilter::Flag`. -/
inductive Flag
  | contacts
  | nonContacts
  | groups
  | channels
  | bots
  | noMuted
  | noRead
  | noArchived
  | chatlist
  | hasMyLinks
  | staticTitle
  | newChats
  | existingChats
deriving DecidableEq

/-- `Flag::RulesMask`. -/
def rulesMask : Finset ChatFilter.Flag :=
  {.contacts, .nonContacts, .groups, .channels, .bots, .noMuted, .noRead, .noArchived}

/-- The flags of the exceptions of Telegram Business, which are no filters of the list. -/
def businessMask : Finset ChatFilter.Flag := {.newChats, .existingChats}

end ChatFilter

open ChatFilter

/-- A filter of the list.  Each is parsed from one of the server, or is empty. -/
@[ext]
structure ListedFilter (Peer Text : Type) extends ChatFilter Peer where
  title : Text
  iconEmoji : String
  colorIndex : Option UInt8
  flags : Finset Flag
  pinned : List Peer
  never : List Peer
  plain : Disjoint flags businessMask

/-! ## The filters of the server -/

/-- `MTPDdialogFilter`. -/
structure MTPDdialogFilter (Input Title : Type) where
  contacts : Bool
  nonContacts : Bool
  groups : Bool
  broadcasts : Bool
  bots : Bool
  excludeMuted : Bool
  excludeRead : Bool
  excludeArchived : Bool
  titleNoanimate : Bool
  id : FilterId
  title : Title
  emoticon : Option String
  color : Option Int
  pinnedPeers : List Input
  includePeers : List Input
  excludePeers : List Input

/-- `MTPDdialogFilterChatlist`. -/
structure MTPDdialogFilterChatlist (Input Title : Type) where
  hasMyInvites : Bool
  titleNoanimate : Bool
  id : FilterId
  title : Title
  emoticon : Option String
  color : Option Int
  pinnedPeers : List Input
  includePeers : List Input

inductive MTPDialogFilter (Input Title : Type)
  | dialogFilter (data : MTPDdialogFilter Input Title)
  | dialogFilterDefault
  | dialogFilterChatlist (data : MTPDdialogFilterChatlist Input Title)

/-- The session that owns the filters: the histories of peers, and the text of a title. -/
structure Owner (Input Title Peer Text : Type) where
  historyFromInput : Input → Option Peer
  historyFromChatlist : Input → Option Peer
  parseText : Title → Text

variable {Input Title Peer Text : Type}

namespace ListedFilter

/-- The constructor of `ChatFilter`. -/
def make (id : FilterId) (title : Text) (isStatic : Bool) (iconEmoji : String)
    (colorIndex : Option UInt8) (flags : Finset Flag) (always pinned never : List Peer)
    (plain : Disjoint flags businessMask) : ListedFilter Peer Text where
  id
  title
  iconEmoji
  colorIndex
  flags := if isStatic then flags ∪ {.staticTitle} else flags \ {.staticTitle}
  always
  pinned
  never
  plain := by
    split
    · exact Finset.disjoint_union_left.mpr ⟨plain, by decide⟩
    · exact Finset.disjoint_of_subset_left Finset.sdiff_subset plain

/-- `ChatFilter(id, {}, {}, {}, {}, {}, {}, {})`. -/
def empty [Inhabited Text] (id : FilterId) : ListedFilter Peer Text :=
  make id default false "" none ∅ [] [] [] (Finset.disjoint_empty_left _)

/-- A flag where a condition holds. -/
def flagIf (condition : Bool) (flag : Flag) : Finset Flag := if condition then {flag} else ∅

theorem disjoint_flagIf {condition : Bool} {flag : Flag} (h : flag ∉ businessMask) :
    Disjoint (flagIf condition flag) businessMask := by
  cases condition with
  | false => exact Finset.disjoint_empty_left _
  | true => exact Finset.disjoint_singleton_left.mpr h

/-- A `flat_set` of what is in a list. -/
def flatSet [LinearOrder Peer] (peers : List Peer) : List Peer := peers.toFinset.sort

variable [LinearOrder Peer] [Inhabited Text]

/-- `ChatFilter::FromTL`. -/
def fromTL (owner : Owner Input Title Peer Text) :
    MTPDialogFilter Input Title → ListedFilter Peer Text
  | .dialogFilter data =>
      let flags := flagIf data.contacts .contacts ∪ flagIf data.nonContacts .nonContacts ∪
        flagIf data.groups .groups ∪ flagIf data.broadcasts .channels ∪
        flagIf data.bots .bots ∪ flagIf data.excludeMuted .noMuted ∪
        flagIf data.excludeRead .noRead ∪ flagIf data.excludeArchived .noArchived ∪
        flagIf data.titleNoanimate .staticTitle
      let always := data.includePeers.filterMap owner.historyFromInput
      let pinned := data.pinnedPeers.filterMap owner.historyFromInput
      let never := data.excludePeers.filterMap owner.historyFromInput
      make data.id (owner.parseText data.title) data.titleNoanimate (data.emoticon.getD "")
        (data.color.map UInt8.ofInt) flags (flatSet (always ++ pinned)) pinned (flatSet never) <| by
          simp (disch := decide) only [flags, Finset.disjoint_union_left, disjoint_flagIf, and_self]
  | .dialogFilterDefault => empty 0
  | .dialogFilterChatlist data =>
      let flags := {.chatlist} ∪ flagIf data.hasMyInvites .hasMyLinks ∪
        flagIf data.titleNoanimate .staticTitle
      let always := data.includePeers.filterMap owner.historyFromChatlist
      let pinned := data.pinnedPeers.filterMap owner.historyFromChatlist
      make data.id (owner.parseText data.title) data.titleNoanimate (data.emoticon.getD "")
        (data.color.map UInt8.ofInt) flags (flatSet (always ++ pinned)) pinned [] <| by
          simp (disch := decide) only [flags, Finset.disjoint_union_left, disjoint_flagIf, and_true,
            Finset.disjoint_singleton_left]
          decide

end ListedFilter

/-! ## The list -/

/-- What the filters fire. -/
inductive FilterEvent
  | listChanged
  | isChatlistChanged (id : FilterId)
  | tagColorChanged (id : FilterId) (colorExistenceChanged : Bool)
deriving DecidableEq

/-- The fields of `ChatFilters` that its list has to do with, and what was fired. -/
structure FilterList (Peer Text : Type) where
  list : List (ListedFilter Peer Text) := []
  exceptionsToLoad : List FilterId := []
  loaded : Bool := false
  reloading : Bool := false
  fired : List FilterEvent := []

namespace FilterList

variable [LinearOrder Peer] [DecidableEq Text] [Inhabited Text]
  (s : FilterList Peer Text) (filter updated : ListedFilter Peer Text)

def ids : List FilterId := s.list.map fun filter => filter.id

def exceptionsChanged : Bool := filter.always ≠ updated.always

def rulesChanged : Bool :=
  exceptionsChanged filter updated ||
    filter.flags ∩ rulesMask ≠ updated.flags ∩ rulesMask ||
    filter.never ≠ updated.never

def hasFlag (flag : ChatFilter.Flag) : Bool := flag ∈ filter.flags

def chatlistChanged : Bool :=
  hasFlag filter .chatlist ≠ hasFlag updated .chatlist ||
    hasFlag filter .hasMyLinks ≠ hasFlag updated .hasMyLinks

def listUpdated : Bool :=
  rulesChanged filter updated ||
    filter.pinned ≠ updated.pinned ||
    filter.title ≠ updated.title ||
    hasFlag filter .staticTitle ≠ hasFlag updated .staticTitle ||
    filter.iconEmoji ≠ updated.iconEmoji

def colorChanged : Bool := filter.colorIndex ≠ updated.colorIndex

/-- A filter becomes another with its id, where they differ in something that is looked at;
`none` stands for the failed `Expects`. -/
def applyChange : Option (FilterList Peer Text × ListedFilter Peer Text × Bool) :=
  if filter.id ≠ updated.id then none
  else if !listUpdated filter updated && !chatlistChanged filter updated &&
      !colorChanged filter updated then
    some (s, filter, false)
  else
    let toLoad := rulesChanged filter updated && exceptionsChanged filter updated &&
      !updated.always.isEmpty
    let chatlist := if chatlistChanged filter updated then
      [FilterEvent.isChatlistChanged filter.id] else []
    let color := if colorChanged filter updated then
      [FilterEvent.tagColorChanged filter.id
        (filter.colorIndex.isNone != updated.colorIndex.isNone)] else []
    some ({ s with
      exceptionsToLoad := if toLoad then s.exceptionsToLoad ++ [filter.id] else s.exceptionsToLoad
      fired := s.fired ++ chatlist ++ color }, updated, listUpdated filter updated)

/-- `applyChange` of the filter at a position. -/
def changeAt (position : Nat) : Option (FilterList Peer Text × Bool) := do
  let filter ← s.list[position]?
  let (s, filter, changed) ← s.applyChange filter updated
  return ({ s with list := s.list.set position filter }, changed)

def applyInsert (position : Nat) : Option (FilterList Peer Text) :=
  if position ≤ s.list.length then do
    let s := { s with list := s.list.insertIdx position (.empty updated.id) }
    let (s, _) ← s.changeAt updated position
    return s
  else none

/-- The filter leaves the list before it is emptied. -/
def applyRemove (position : Nat) : Option (FilterList Peer Text) := do
  let filter ← s.list[position]?
  let (s, _, _) ← { s with list := s.list.eraseIdx position }.applyChange filter (.empty filter.id)
  return s

/-- One filter of the server: it is put, changed or swapped to the position. -/
def receiveOne (changed : Bool) (position : Nat) : Option (FilterList Peer Text × Bool) :=
  let i := findFrom (fun filter => filter.id = updated.id) s.list position
  if i = s.list.length then
    (s.applyInsert updated position).map fun s => (s, true)
  else if i = position then
    (s.changeAt updated position).map fun r => (r.1, changed || r.2)
  else
    let swapped := { s with list := swapAt s.list position i }
    (swapped.changeAt updated position).map fun r => (r.1, true)

/-- The loop over the filters of the server. -/
def receive : List (ListedFilter Peer Text) → Nat → FilterList Peer Text → Bool →
    Option (FilterList Peer Text × Bool)
  | [], _, s, changed => some (s, changed)
  | parsed :: list, position, s, changed => do
      let (s, changed) ← s.receiveOne parsed changed position
      receive list (position + 1) s changed

/-- `while (position < _list.size())`, for that many filters after the position. -/
def removeRest (position : Nat) : Nat → FilterList Peer Text → Option (FilterList Peer Text)
  | 0, s => some s
  | n + 1, s => do
      let s ← s.applyRemove position
      removeRest position n s

def received (owner : Owner Input Title Peer Text)
    (list : List (MTPDialogFilter Input Title)) : Option (FilterList Peer Text) := do
  let (s, changed) ← receive (list.map (ListedFilter.fromTL owner)) 0 s false
  let rest := s.list.length - list.length
  let s ← removeRest list.length rest s
  let changed := changed || rest ≠ 0
  let s := if 0 ∉ s.ids then { s with list := .empty 0 :: s.list } else s
  return if changed || !s.loaded || s.reloading then
    { s with loaded := true, reloading := false, fired := s.fired ++ [.listChanged] }
  else s

/-- The order is tried on the ids first; `none` stands for the failed `Assert`. -/
def applyOrder (order : List FilterId) : Option (FilterList Peer Text × Bool) :=
  if order.length ≠ s.list.length then some (s, false)
  else if s.list.isEmpty then some (s, true)
  else if (arrange (fun id => id) order 0 s.ids false).isNone then some (s, false)
  else do
    let (list, changed) ← arrange (fun filter => filter.id) order 0 s.list false
    let fired := if changed then s.fired ++ [.listChanged] else s.fired
    return ({ s with list, fired }, true)

/-! ## One filter -/

variable {s filter updated} {position : Nat} {done rest : List (ListedFilter Peer Text)}

omit [Inhabited Text] in
/-- Filters that differ in nothing that is looked at are the same. -/
theorem eq_of_unchanged (hid : filter.id = updated.id) (hlist : listUpdated filter updated = false)
    (hchatlist : chatlistChanged filter updated = false)
    (hcolor : colorChanged filter updated = false) : filter = updated := by
  simp only [listUpdated, rulesChanged, exceptionsChanged, chatlistChanged, colorChanged,
    hasFlag, Bool.or_eq_false_iff, decide_eq_false_iff_not, ne_eq, not_not,
    decide_eq_decide] at hlist hchatlist hcolor
  obtain ⟨⟨⟨⟨⟨⟨halways, hrules⟩, hnever⟩, hpinned⟩, htitle⟩, hstatic⟩, hicon⟩ := hlist
  refine ListedFilter.ext hid halways htitle hicon hcolor ?_ hpinned hnever
  ext flag
  by_cases hmask : flag ∈ rulesMask
  · have := Finset.ext_iff.mp hrules flag
    simpa [hmask] using this
  · by_cases hbusiness : flag ∈ businessMask
    · have hplain := Finset.disjoint_left.mp filter.plain.symm hbusiness
      have hplain' := Finset.disjoint_left.mp updated.plain.symm hbusiness
      simp [hplain, hplain']
    · cases flag with
      | chatlist => exact hchatlist.1
      | hasMyLinks => exact hchatlist.2
      | staticTitle => exact hstatic
      | _ => simp [rulesMask, businessMask] at hmask hbusiness

omit [Inhabited Text] in
/-- **The filter becomes the other one**, whether or not a change is told. -/
theorem applyChange_spec (hid : filter.id = updated.id) :
    ∃ s' changed, s.applyChange filter updated = some (s', updated, changed) ∧
      s'.list = s.list := by
  unfold applyChange
  rw [if_neg (not_not.mpr hid)]
  split
  · next h =>
      simp only [Bool.and_eq_true, Bool.not_eq_true'] at h
      rw [eq_of_unchanged hid h.1.1 h.1.2 h.2]
      exact ⟨s, false, rfl, rfl⟩
  · exact ⟨_, _, rfl, rfl⟩

omit [Inhabited Text] in
theorem changeAt_spec (hlist : s.list = done ++ filter :: rest) (hid : filter.id = updated.id) :
    ∃ s' changed, s.changeAt updated done.length = some (s', changed) ∧
      s'.list = done ++ updated :: rest := by
  have hget : s.list[done.length]? = some filter := by simp [hlist]
  obtain ⟨s', changed, happly, hsame⟩ := applyChange_spec (s := s) hid
  refine ⟨{ s' with list := s'.list.set done.length updated }, changed, ?_, ?_⟩
  · simp only [changeAt, hget, Option.bind_eq_bind, Option.bind_some, happly]
    rfl
  · simp [hsame, hlist]

theorem applyInsert_spec (updated : ListedFilter Peer Text) (hlist : s.list = done ++ rest) :
    ∃ s', s.applyInsert updated done.length = some s' ∧ s'.list = done ++ updated :: rest := by
  have hle : done.length ≤ s.list.length := by simp [hlist]
  have hinsert : s.list.insertIdx done.length (.empty updated.id) =
      done ++ .empty updated.id :: rest := by
    rw [hlist, insertIdx_append]
  obtain ⟨s', changed, hchange, hresult⟩ :=
    changeAt_spec (s := { s with list := s.list.insertIdx done.length (.empty updated.id) })
      hinsert (show (ListedFilter.empty updated.id).id = updated.id from rfl)
  refine ⟨s', ?_, hresult⟩
  rw [applyInsert, if_pos hle]
  simp only [hchange, Option.bind_eq_bind, Option.bind_some]
  rfl

theorem applyRemove_spec (hlist : s.list = done ++ filter :: rest) :
    ∃ s', s.applyRemove done.length = some s' ∧ s'.list = done ++ rest := by
  have hget : s.list[done.length]? = some filter := by simp [hlist]
  obtain ⟨s', changed, happly, hsame⟩ :=
    applyChange_spec (s := { s with list := s.list.eraseIdx done.length })
      (show filter.id = (ListedFilter.empty filter.id : ListedFilter Peer Text).id from rfl)
  refine ⟨s', ?_, ?_⟩
  · simp only [applyRemove, hget, Option.bind_eq_bind, Option.bind_some, happly]
    rfl
  · rw [hsame, hlist]
    simp [List.eraseIdx_append_of_length_le]

/-! ## The loops -/

/-- The filter of the server comes to the position, in each of the three cases. -/
theorem receiveOne_spec (updated : ListedFilter Peer Text) (changed : Bool)
    (hlist : s.list = done ++ rest) :
    ∃ s' changed' rest', s.receiveOne updated changed done.length = some (s', changed') ∧
      s'.list = done ++ updated :: rest' := by
  by_cases hmem : ∃ x ∈ rest, decide (x.id = updated.id) = true
  · obtain ⟨before, x, after, rfl, hbefore, hx⟩ := exists_first hmem
    have hfind : findFrom (fun filter => filter.id = updated.id) s.list done.length =
        done.length + before.length := by
      rw [hlist, findFrom_append, findIdx_append_cons hbefore hx]
    have hx := of_decide_eq_true hx
    have hlength : done.length + before.length ≠ s.list.length := by
      rw [hlist]
      simp only [List.length_append, List.length_cons]
      omega
    rw [receiveOne, hfind, if_neg hlength]
    cases before with
    | nil =>
        obtain ⟨s', listUpdated, hchange, hresult⟩ := changeAt_spec hlist hx
        refine ⟨s', changed || listUpdated, after, ?_, hresult⟩
        rw [List.length_nil, Nat.add_zero, if_pos rfl, hchange]
        rfl
    | cons a before =>
        have hswap : swapAt s.list done.length (done.length + (a :: before).length) =
            done ++ x :: (before ++ a :: after) := hlist ▸ swapAt_append
        obtain ⟨s', listUpdated, hchange, hresult⟩ :=
          changeAt_spec (s := { s with list := swapAt s.list done.length _ }) hswap hx
        refine ⟨s', true, before ++ a :: after, ?_, hresult⟩
        rw [if_neg (by simp)]
        dsimp only
        rw [hchange]
        rfl
  · push Not at hmem
    have hfind : findFrom (fun filter => filter.id = updated.id) s.list done.length =
        s.list.length := by
      rw [hlist, findFrom_append, findIdx_of_none, List.length_append]
      exact fun y hy => Bool.eq_false_of_not_eq_true (hmem y hy)
    obtain ⟨s', hinsert, hresult⟩ := applyInsert_spec updated hlist
    refine ⟨s', true, rest, ?_, hresult⟩
    rw [receiveOne, hfind, if_pos rfl, hinsert]
    rfl

/-- **The filters of the server come next**, and what of the others is left comes after
them. -/
theorem receive_spec (list : List (ListedFilter Peer Text)) (changed : Bool)
    (hlist : s.list = done ++ rest) :
    ∃ s' changed' rest', receive list done.length s changed = some (s', changed') ∧
      s'.list = done ++ list ++ rest' := by
  induction list generalizing s done rest changed with
  | nil => exact ⟨s, changed, rest, rfl, by rw [List.append_nil, hlist]⟩
  | cons parsed list ih =>
      obtain ⟨s₁, changed₁, rest₁, hstep, hlist₁⟩ :=
        receiveOne_spec parsed changed hlist
      have hnext : s₁.list = (done ++ [parsed]) ++ rest₁ := by simp [hlist₁]
      obtain ⟨s', changed', rest', hreceive, hresult⟩ := ih changed₁ hnext
      rw [List.length_append, List.length_singleton] at hreceive
      refine ⟨s', changed', rest', ?_, ?_⟩
      · rw [receive, hstep]
        exact hreceive
      · rw [hresult, List.append_assoc done, List.singleton_append]

theorem removeRest_spec (hlist : s.list = done ++ rest) :
    ∃ s', removeRest done.length rest.length s = some s' ∧ s'.list = done := by
  induction rest generalizing s with
  | nil => exact ⟨s, rfl, by rw [hlist, List.append_nil]⟩
  | cons filter rest ih =>
      obtain ⟨s₁, hremove, hlist₁⟩ := applyRemove_spec hlist
      obtain ⟨s', hrest, hresult⟩ := ih hlist₁
      refine ⟨s', ?_, hresult⟩
      rw [List.length_cons, removeRest, hremove]
      exact hrest

/-! ## The operations -/

/-- The list is that of the server, after a default filter where the server has none. -/
theorem received_spec (owner : Owner Input Title Peer Text)
    (list : List (MTPDialogFilter Input Title)) :
    ∃ s', s.received owner list = some s' ∧
      s'.list = if 0 ∈ list.map fun filter => (ListedFilter.fromTL owner filter).id then
          list.map (ListedFilter.fromTL owner)
        else .empty 0 :: list.map (ListedFilter.fromTL owner) := by
  obtain ⟨s₁, changed, rest, hreceive, hlist₁⟩ :=
    receive_spec (list.map (ListedFilter.fromTL owner)) false (List.nil_append s.list).symm
  rw [List.nil_append] at hlist₁
  have hrest : s₁.list.length - list.length = rest.length := by simp [hlist₁]
  obtain ⟨s₂, hremove, hlist₂⟩ := removeRest_spec hlist₁
  rw [List.length_map] at hremove
  have hids : s₂.ids = list.map fun filter => (ListedFilter.fromTL owner filter).id := by
    rw [ids, hlist₂, List.map_map]
    rfl
  rw [List.length_nil] at hreceive
  simp only [received, hreceive, Option.bind_eq_bind, Option.bind_some, hrest, hremove, hids]
  refine ⟨_, rfl, ?_⟩
  by_cases hzero : 0 ∈ list.map fun filter => (ListedFilter.fromTL owner filter).id
  · rw [if_pos hzero, if_neg (not_not.mpr hzero)]
    split
    · exact hlist₂
    · exact hlist₂
  · rw [if_neg hzero, if_pos hzero]
    split
    · exact congrArg _ hlist₂
    · exact congrArg _ hlist₂

omit [LinearOrder Peer] [DecidableEq Text] [Inhabited Text] in
theorem applyOrder_spec (order : List FilterId) :
    ∃ s' result, s.applyOrder order = some (s', result) ∧ (result = true ↔ order.Perm s.ids) ∧
      (result = true → s'.list.Perm s.list ∧ s'.ids = order) ∧ (result = false → s' = s) := by
  have hids : s.ids.length = s.list.length := List.length_map _
  unfold applyOrder
  split
  · next hlength =>
      refine ⟨s, false, rfl, ⟨fun h => absurd h (by simp), fun hperm => ?_⟩,
        fun h => absurd h (by simp), fun _ => rfl⟩
      exact absurd (hperm.length_eq.trans hids) hlength
  · next hlength =>
      rw [not_not, ← hids] at hlength
      split
      · next hempty =>
          rw [List.isEmpty_iff] at hempty
          have hsame : order = s.ids := by
            rw [ids, hempty] at hlength ⊢
            exact List.length_eq_zero_iff.mp hlength
          exact ⟨s, true, rfl, ⟨fun _ => hsame ▸ .refl _, fun _ => rfl⟩,
            fun _ => ⟨.refl _, hsame.symm⟩, fun h => absurd h (by simp)⟩
      · have htry : (arrange (fun id => id) order 0 s.ids false).isSome ↔
            order.Subperm s.ids := by
          simpa using @isSome_arrange_iff _ _ _ (fun id => id) order [] s.ids false
        split
        · next hnone =>
            refine ⟨s, false, rfl, ⟨fun h => absurd h (by simp), fun hperm => ?_⟩,
              fun h => absurd h (by simp), fun _ => rfl⟩
            rw [Option.isNone_iff_eq_none.mp hnone] at htry
            exact absurd (htry.mpr hperm.subperm) (by simp)
        · next hsome =>
            rw [Option.isNone_iff_eq_none, ← ne_eq, Option.ne_none_iff_isSome, htry] at hsome
            have hperm : order.Perm s.ids := hsome.perm_of_length_le hlength.ge
            have harrange : (arrange (fun filter => filter.id) order 0 s.list false).isSome :=
              (@isSome_arrange_iff _ _ _ _ _ [] s.list _).mpr hsome
            obtain ⟨⟨list, changed⟩, harrange⟩ := Option.isSome_iff_exists.mp harrange
            obtain ⟨rest, hlist, hsame, hprefix, -⟩ := @arrange_spec _ _ _ _ _ [] _ _ _ _ harrange
            rw [List.nil_append] at hlist
            subst hlist
            rw [harrange]
            refine ⟨_, true, rfl, ⟨fun _ => hperm, fun _ => rfl⟩, fun _ => ⟨hsame, ?_⟩,
              fun h => absurd h (by simp)⟩
            refine (List.IsPrefix.eq_of_length hprefix ?_).symm
            rw [hlength, List.length_map, hids, hsame.length_eq]

/-- **An order is taken or left as a whole, and the server's list is taken as it is.** The order
is taken exactly where it is one of the ids of the filters, which are then in this order. -/
theorem applyOrder_received (s : FilterList Peer Text) (owner : Owner Input Title Peer Text) :
    (∀ order, ∃ s' result, s.applyOrder order = some (s', result) ∧
      (result = true ↔ order.Perm s.ids) ∧
      (result = true → s'.list.Perm s.list ∧ s'.ids = order) ∧ (result = false → s' = s)) ∧
    ∀ list : List (MTPDialogFilter Input Title), ∃ s', s.received owner list = some s' ∧
      s'.list = if 0 ∈ list.map fun filter => (ListedFilter.fromTL owner filter).id then
          list.map (ListedFilter.fromTL owner)
        else .empty 0 :: list.map (ListedFilter.fromTL owner) :=
  ⟨applyOrder_spec, received_spec owner⟩

end FilterList

end Data

end MessengerClient
