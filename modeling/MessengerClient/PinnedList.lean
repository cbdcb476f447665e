import MessengerClient.Lib.Runs
import Mathlib.Logic.Function.Basic
import Mathlib.Data.List.Basic
import Mathlib.Data.List.Nodup
import Mathlib.Logic.Equiv.Basic

/-!
# MessengerClient.PinnedList

`Dialogs::PinnedList`: the pinned chats of one filter, in order.

An entry caches the index that it has in the list, counted from one; the list writes it anew
for the entries that an operation moves.  What an entry does when its index changes is not part
of the model.  A failed `Expects` or `Assert` is `none`.
-/

namespace MessengerClient

namespace Dialogs

inductive Key where
  | history (peer : Nat)
  | folder (id : Nat)
  | sublist (peer : Nat)
  | topic (id : Nat)
deriving DecidableEq

def Key.history? : Key → Option Nat
  | .history peer => some peer
  | _ => none

structure PinnedList where
  filterId : Int
  limit : Nat
  data : List Key := []
  /-- The index that the entry of a key caches for the filter. -/
  index : Key → Nat := fun _ => 0

namespace PinnedList

/-- `cachePinnedIndex` for some keys that follow each other from one position on. -/
def cache (index : Key → Nat) : List Key → Nat → Key → Nat
  | [], _ => index
  | key :: keys, position => cache (Function.update index key (position + 1)) keys (position + 1)

/-- `setPinned(key, false)`. -/
def unpin (l : PinnedList) (key : Key) : PinnedList :=
  if key ∈ l.data then
    let index := l.data.idxOf key
    let data := l.data.eraseIdx index
    { l with data, index := cache (Function.update l.index key 0) (data.drop index) index }
  else
    l

theorem length_unpin {l : PinnedList} {key : Key} (h : key ∈ l.data) :
    (l.unpin key).data.length + 1 = l.data.length := by
  have hlt := List.idxOf_lt_length_of_mem h
  rw [unpin, if_pos h]
  dsimp only
  rw [List.length_eraseIdx_of_lt hlt]
  omega

def applyLimit (limit : Nat) (l : PinnedList) : PinnedList :=
  if h : limit < l.data.length then
    applyLimit limit (l.unpin (l.data.getLast (List.ne_nil_of_length_pos (by omega))))
  else
    l
termination_by l.data.length
decreasing_by
  have hlength := length_unpin (List.getLast_mem (List.ne_nil_of_length_pos
    (Nat.lt_of_le_of_lt (Nat.zero_le limit) h)))
  omega

variable (l : PinnedList)

def setLimit (limit : Nat) : Option PinnedList :=
  if limit = 0 then none
  else if l.limit = limit then some l
  else some ({ l with limit }.applyLimit limit)

def addPinnedGetPosition (key : Key) : PinnedList × Nat :=
  if key ∈ l.data then (l, l.data.idxOf key)
  else
    let l := l.applyLimit (l.limit - 1)
    let position := l.data.length
    ({ l with
      data := l.data ++ [key]
      index := Function.update l.index key (position + 1) }, position)

/-- `known` says whether the folder of the entry is known. -/
def addPinned (known : Bool) (key : Key) : Option PinnedList :=
  if known then some (l.addPinnedGetPosition key).1 else none

/-- The element at a position is rotated to the front. -/
def rotate (position : Nat) : PinnedList :=
  let data := (l.data.drop position).take 1 ++ l.data.take position ++ l.data.drop (position + 1)
  { l with data, index := cache l.index (data.take (position + 1)) 0 }

def setPinned (known : Bool) (key : Key) (pinned : Bool) : Option PinnedList :=
  if !known && l.filterId == 0 then none
  else if pinned then
    let (l, position) := l.addPinnedGetPosition key
    some (if position ≠ 0 then l.rotate position else l)
  else
    some (l.unpin key)

def clear : PinnedList := l.applyLimit 0

/-- The items of a list from the server are added to an empty list, one after another. -/
def addAll (items : List (Key × Bool)) : Option PinnedList :=
  items.foldlM (fun l item => l.addPinned item.2 item.1) l.clear

/-- `MTPDialogPeer`, and whether the folder of its entry is known. -/
inductive DialogPeer where
  | peer (id : Nat) (known : Bool)
  | folder (id : Nat) (known : Bool)
  | community (id : Nat)

/-- An item in a list of the session; `channelLoaded` gives the peer of a channel, whose folder
is known from then on. -/
def sessionItem (channelLoaded : Nat → Option Nat) : DialogPeer → Option (Key × Bool)
  | .peer id known => if id ≠ 0 then some (.history id, known) else none
  | .folder id known => some (.folder id, known)
  | .community id => (channelLoaded id).map fun peer => (.history peer, true)

/-- An item in a list of the saved messages. -/
def sublistItem : DialogPeer → Option (Key × Bool)
  | .peer id known => if id ≠ 0 then some (.sublist id, known) else none
  | .folder _ _ => none
  | .community _ => none

/-- `applyList` of histories. -/
def applyHistories (list : List Nat) : Option PinnedList :=
  if l.filterId = 0 then none
  else
    let data := list.map Key.history
    let index := cache l.index data 0
    some { l with
      data
      index := l.data.foldl (fun index key =>
        if key.history?.all fun history => !data.any (·.history? == some history) then
          Function.update index key 0
        else index) index }

def reorder (key1 key2 : Key) : Option PinnedList :=
  let index1 := l.data.idxOf key1
  let index2 := l.data.idxOf key2
  if index1 < l.data.length ∧ index2 < l.data.length ∧ index1 ≠ index2 then
    some { l with
      data := (l.data.set index1 key2).set index2 key1
      index := Function.update (Function.update l.index key1 (index2 + 1)) key2 (index1 + 1) }
  else none

/-! ## Runs -/

inductive Action where
  | setLimit (limit : Nat)
  | addPinned (known : Bool) (key : Key)
  | setPinned (known : Bool) (key : Key) (pinned : Bool)
  | clear
  | applySession (channelLoaded : Nat → Option Nat) (list : List DialogPeer)
  | applySublists (list : List DialogPeer)
  | applyTopics (list : List (Nat × Bool))
  | applyHistories (list : List Nat)
  | reorder (key1 key2 : Key)

def next : Action → Option PinnedList
  | .setLimit limit => l.setLimit limit
  | .addPinned known key => l.addPinned known key
  | .setPinned known key pinned => l.setPinned known key pinned
  | .clear => some l.clear
  | .applySession channelLoaded list => l.addAll (list.filterMap (sessionItem channelLoaded))
  | .applySublists list => l.addAll (list.filterMap sublistItem)
  | .applyTopics list => l.addAll (list.map fun topic => (.topic topic.1, topic.2))
  | .applyHistories list => l.applyHistories list
  | .reorder key1 key2 => l.reorder key1 key2

/-- The runs from a new list on; the histories of one call are distinct. -/
def system : System PinnedList Action where
  init l := ∃ filterId limit, 0 < limit ∧ l = { filterId, limit }
  step l a l' := (∀ list, a = .applyHistories list → list.Nodup) ∧ l.next a = some l'

/-! ## The indices of a list -/

/-- The index of every key, counted from one; zero for a key that is not there. -/
def positions (data : List Key) (key : Key) : Nat :=
  if key ∈ data then data.idxOf key + 1 else 0

variable {data keys before after : List Key} {key : Key} {index : Key → Nat} {position : Nat}

theorem cache_apply (h : keys.Nodup) : cache index keys position key =
    if key ∈ keys then position + keys.idxOf key + 1 else index key := by
  induction keys generalizing index position with
  | nil => rfl
  | cons k keys ih =>
      obtain ⟨hnot, hnodup⟩ := List.nodup_cons.mp h
      rw [cache, ih hnodup]
      by_cases heq : key = k
      · subst heq
        rw [if_neg hnot, Function.update_self, if_pos List.mem_cons_self, List.idxOf_cons_self]
      · by_cases hmem : key ∈ keys
        · rw [if_pos hmem, if_pos (List.mem_cons_of_mem k hmem),
            List.idxOf_cons_ne keys (Ne.symm heq)]
          omega
        · rw [if_neg hmem, Function.update_of_ne heq,
            if_neg (by rw [List.mem_cons, not_or]; exact ⟨heq, hmem⟩)]

/-- The positions behind some keys are those among the others, moved up. -/
theorem positions_append (h : (before ++ after).Nodup) :
    positions (before ++ after) key =
      if key ∈ after then before.length + after.idxOf key + 1 else positions before key := by
  obtain ⟨-, -, hcross⟩ := List.nodup_append.mp h
  unfold positions
  by_cases hafter : key ∈ after
  · have hbefore : key ∉ before := fun hmem => hcross key hmem key hafter rfl
    rw [if_pos hafter, if_pos (List.mem_append_right _ hafter),
      List.idxOf_append_of_notMem hbefore]
  · rw [if_neg hafter]
    by_cases hbefore : key ∈ before
    · rw [if_pos hbefore, if_pos (List.mem_append_left _ hbefore), List.idxOf_append_of_mem hbefore]
    · rw [if_neg hbefore, if_neg (by rw [List.mem_append, not_or]; exact ⟨hbefore, hafter⟩)]

/-- **The list is consistent**: its keys are distinct, and every entry caches the index that
its key has. -/
structure Consistent (l : PinnedList) : Prop where
  nodup : l.data.Nodup
  index : l.index = positions l.data

variable {l l' : PinnedList} {limit : Nat} {known : Bool}

/-! ### Removing -/

theorem Consistent.unpin_split (h : l.Consistent) (hdata : l.data = before ++ key :: after) :
    (l.unpin key).Consistent ∧ (l.unpin key).data = before ++ after ∧
      (l.unpin key).limit = l.limit ∧ (l.unpin key).filterId = l.filterId := by
  have hnodup := h.nodup
  rw [hdata] at hnodup
  obtain ⟨-, hcons, hcross⟩ := List.nodup_append.mp hnodup
  obtain ⟨hafter, -⟩ := List.nodup_cons.mp hcons
  have hbefore : key ∉ before := fun hmem => hcross key hmem key List.mem_cons_self rfl
  have hmem : key ∈ l.data := hdata ▸ List.mem_append_right _ List.mem_cons_self
  have hidx : l.data.idxOf key = before.length := by
    rw [hdata, List.idxOf_append_of_notMem hbefore, List.idxOf_cons_self, Nat.add_zero]
  have herase : l.data.eraseIdx before.length = before ++ after := by
    rw [hdata, List.eraseIdx_append_of_length_le (Nat.le_refl _), Nat.sub_self,
      List.eraseIdx_cons_zero]
  have hleft : (before ++ after).Nodup :=
    hnodup.sublist ((List.sublist_cons_self key after).append_left before)
  rw [unpin, if_pos hmem]
  simp only [hidx, herase, List.drop_left, and_true]
  refine ⟨hleft, ?_⟩
  funext k
  dsimp only
  rw [cache_apply (List.nodup_append.mp hleft).2.1, positions_append hleft]
  by_cases hk : k ∈ after
  · rw [if_pos hk, if_pos hk]
  · rw [if_neg hk, if_neg hk]
    by_cases heq : k = key
    · subst heq
      rw [Function.update_self, positions, if_neg hbefore]
    · rw [Function.update_of_ne heq, h.index, hdata, positions_append hnodup]
      exact if_neg fun hmem => hk ((List.mem_cons.mp hmem).resolve_left heq)

theorem Consistent.unpin_notMem (hkey : key ∉ l.data) : l.unpin key = l := if_neg hkey

theorem Consistent.unpin (h : l.Consistent) : (l.unpin key).Consistent := by
  by_cases hkey : key ∈ l.data
  · obtain ⟨before, after, hdata⟩ := List.append_of_mem hkey
    exact (h.unpin_split hdata).1
  · rw [unpin_notMem hkey]
    exact h

/-- **The list is cut at its limit.** -/
theorem Consistent.applyLimit (h : l.Consistent) (limit : Nat) :
    (l.applyLimit limit).Consistent ∧ (l.applyLimit limit).data = l.data.take limit ∧
      (l.applyLimit limit).limit = l.limit ∧ (l.applyLimit limit).filterId = l.filterId := by
  induction hn : l.data.length using Nat.strongRecOn generalizing l with
  | ind n ih =>
      rw [PinnedList.applyLimit]
      split
      · next hlt =>
          have hsome : l.data ≠ [] := List.ne_nil_of_length_pos (by omega)
          have hsplit : l.data = l.data.dropLast ++ l.data.getLast hsome :: [] :=
            (List.dropLast_append_getLast hsome).symm
          obtain ⟨hunpin, hdata, hlimit, hfilter⟩ := h.unpin_split hsplit
          rw [List.append_nil] at hdata
          have hlength : (l.unpin (l.data.getLast hsome)).data.length < n := by
            rw [hdata, List.length_dropLast]
            omega
          obtain ⟨hgood, htake, hlimit', hfilter'⟩ := ih _ hlength hunpin rfl
          refine ⟨hgood, ?_, hlimit'.trans hlimit, hfilter'.trans hfilter⟩
          rw [htake, hdata, List.dropLast_eq_take, List.take_take, Nat.min_eq_left (by omega)]
      · next hle => exact ⟨h, (List.take_of_length_le (by omega)).symm, rfl, rfl⟩

/-! ### Adding -/

/-- A key is found where it is, or added behind the others, which are cut first. -/
theorem Consistent.addPinnedGetPosition (h : l.Consistent) (key : Key) :
    (l.addPinnedGetPosition key).1.Consistent ∧
      (l.addPinnedGetPosition key).1.limit = l.limit ∧
      ∃ before after, (l.addPinnedGetPosition key).1.data = before ++ key :: after ∧
        (l.addPinnedGetPosition key).2 = before.length ∧
        (key ∈ l.data ∧ l.data = before ++ key :: after ∧ key ∉ before ∨
          key ∉ l.data ∧ before = l.data.take (l.limit - 1) ∧ after = []) := by
  by_cases hkey : key ∈ l.data
  · obtain ⟨before, after, hsplit, hnot⟩ := List.eq_append_cons_of_mem hkey
    rw [PinnedList.addPinnedGetPosition, if_pos hkey]
    refine ⟨h, rfl, before, after, hsplit, ?_, .inl ⟨hkey, hsplit, hnot⟩⟩
    rw [hsplit, List.idxOf_append_of_notMem hnot, List.idxOf_cons_self, Nat.add_zero]
  · obtain ⟨hcut, htake, hlimit, -⟩ := h.applyLimit (l.limit - 1)
    rw [PinnedList.addPinnedGetPosition, if_neg hkey]
    generalize l.applyLimit (l.limit - 1) = cut at hcut htake hlimit
    have hnot : key ∉ cut.data := fun hmem => hkey (List.take_subset _ _ (htake ▸ hmem))
    have hnodup : (cut.data ++ [key]).Nodup :=
      List.nodup_append.mpr ⟨hcut.nodup, List.nodup_singleton key, fun a ha b hb heq =>
        hnot (List.mem_singleton.mp hb ▸ heq ▸ ha)⟩
    refine ⟨⟨hnodup, ?_⟩, hlimit, cut.data, [], rfl, rfl, .inr ⟨hkey, htake, rfl⟩⟩
    funext k
    dsimp only
    rw [positions_append hnodup]
    by_cases heq : k = key
    · subst heq
      rw [Function.update_self, if_pos (List.mem_singleton_self k), List.idxOf_cons_self]
    · rw [Function.update_of_ne heq, if_neg fun hmem => heq (List.mem_singleton.mp hmem),
        hcut.index]

/-- The rotated element comes first, and the others follow in their order. -/
theorem Consistent.rotate (h : l.Consistent) (hdata : l.data = before ++ key :: after) :
    (l.rotate before.length).Consistent ∧
      (l.rotate before.length).data = key :: before ++ after := by
  have hfirst : (l.data.drop before.length).take 1 = [key] := by
    rw [hdata, List.drop_left]
    rfl
  have hbefore : l.data.take before.length = before := by rw [hdata, List.take_left]
  have hafter : l.data.drop (before.length + 1) = after := by
    rw [hdata, ← List.drop_drop, List.drop_left]
    rfl
  have hnew : (l.rotate before.length).data = key :: before ++ after := by
    rw [PinnedList.rotate]
    dsimp only
    rw [hfirst, hbefore, hafter]
    rfl
  have hperm : (key :: before ++ after).Perm l.data := by
    rw [hdata]
    exact List.perm_middle.symm
  have hnodup : (key :: before ++ after).Nodup := hperm.nodup_iff.mpr h.nodup
  have htake : (key :: before ++ after).take (before.length + 1) = key :: before :=
    List.take_left' rfl
  have hindex : (l.rotate before.length).index = cache l.index (key :: before) 0 := by
    rw [PinnedList.rotate]
    dsimp only
    rw [hfirst, hbefore, hafter]
    exact congrArg (fun keys => cache l.index keys 0) htake
  refine ⟨⟨hnew ▸ hnodup, ?_⟩, hnew⟩
  rw [hnew, hindex]
  funext k
  obtain ⟨hkeys, -, hcross⟩ := List.nodup_append.mp hnodup
  rw [cache_apply hkeys, positions_append hnodup]
  by_cases hk : k ∈ after
  · rw [if_pos hk, if_neg fun hmem => hcross k hmem k hk rfl, h.index]
    have hnodup' := h.nodup
    have hsplit : l.data = (before ++ [key]) ++ after := by rw [hdata]; simp
    rw [hsplit] at hnodup' ⊢
    rw [positions_append hnodup', if_pos hk]
    simp
  · rw [if_neg hk, positions]
    by_cases hmem : k ∈ key :: before
    · rw [if_pos hmem, if_pos hmem, Nat.zero_add]
    · rw [if_neg hmem, if_neg hmem, h.index, positions, if_neg]
      exact fun hk' => (List.mem_append.mp (hperm.mem_iff.mpr hk')).elim hmem hk

/-- **A pinned key is first**, and the others follow in their order: all of them where it was
there already, and else as many as the limit leaves. -/
theorem Consistent.setPinned (h : l.Consistent)
    (hpin : l.setPinned known key true = some l') :
    l'.Consistent ∧ l'.limit = l.limit ∧ l'.data =
      key :: (if key ∈ l.data then l.data.erase key else l.data.take (l.limit - 1)) := by
  unfold PinnedList.setPinned at hpin
  split at hpin
  · cases hpin
  · simp only [if_true] at hpin
    obtain ⟨hgood, hlimit, before, after, hdata, hposition, hwhere⟩ := h.addPinnedGetPosition key
    generalize l.addPinnedGetPosition key = added at hpin hgood hlimit hdata hposition
    obtain ⟨l₁, position⟩ := added
    dsimp only at hpin hgood hlimit hdata hposition
    have hothers : before ++ after =
        if key ∈ l.data then l.data.erase key else l.data.take (l.limit - 1) := by
      rcases hwhere with ⟨hkey, hsplit, hnot⟩ | ⟨hkey, hbefore, hafter⟩
      · rw [if_pos hkey, hsplit, List.erase_append_right _ hnot, List.erase_cons_head]
      · rw [if_neg hkey, hbefore, hafter, List.append_nil]
    rw [← hothers]
    obtain rfl := Option.some.inj hpin
    by_cases hzero : position = 0
    · rw [if_neg (not_not.mpr hzero)]
      have hnil : before = [] := List.eq_nil_of_length_eq_zero (hposition.symm.trans hzero)
      rw [hnil] at hdata ⊢
      exact ⟨hgood, hlimit, hdata⟩
    · rw [if_pos hzero, hposition]
      obtain ⟨hrotated, hnew⟩ := hgood.rotate hdata
      exact ⟨hrotated, hlimit, hnew⟩

/-! ### Replacing and swapping -/

theorem foldl_reset {index : Key → Nat} {gone : Key → Bool} {old : List Key} {key : Key} :
    old.foldl (fun index key => if gone key then Function.update index key 0 else index) index
      key = if key ∈ old ∧ gone key = true then 0 else index key := by
  induction old generalizing index with
  | nil => simp
  | cons k old ih =>
      rw [List.foldl_cons, ih]
      by_cases heq : key = k
      · subst heq
        cases hgone : gone key with
        | true => simp
        | false => simp
      · cases gone k with
        | true => simp [heq]
        | false => simp [heq]

theorem any_history {peer : Nat} :
    data.any (·.history? == some peer) = true ↔ .history peer ∈ data := by
  rw [List.any_eq_true]
  constructor
  · rintro ⟨key, hkey, heq⟩
    cases key with
    | history id => exact Option.some.inj (eq_of_beq heq) ▸ hkey
    | folder id => cases heq
    | sublist id => cases heq
    | topic id => cases heq
  · exact fun hmem => ⟨_, hmem, beq_self_eq_true _⟩

theorem Consistent.applyHistories {list : List Nat} (h : l.Consistent) (hnodup : list.Nodup)
    (happly : l.applyHistories list = some l') :
    l'.Consistent ∧ l'.data = list.map Key.history ∧ l'.limit = l.limit := by
  unfold PinnedList.applyHistories at happly
  split at happly
  · cases happly
  · obtain rfl := Option.some.inj happly
    have hdata : (list.map Key.history).Nodup :=
      hnodup.map fun a b heq => Key.history.inj heq
    refine ⟨⟨hdata, funext fun key => ?_⟩, rfl, rfl⟩
    dsimp only
    rw [foldl_reset, cache_apply hdata, positions, Nat.zero_add]
    by_cases hkey : key ∈ list.map Key.history
    · obtain ⟨peer, hpeer, rfl⟩ := List.mem_map.mp hkey
      rw [if_pos hkey, if_pos hkey, if_neg]
      rintro ⟨-, hgone⟩
      rw [Key.history?, Option.all_some, any_history.mpr hkey] at hgone
      cases hgone
    · rw [if_neg hkey, if_neg hkey]
      by_cases hold : key ∈ l.data
      · rw [if_pos]
        refine ⟨hold, ?_⟩
        cases key with
        | history peer =>
            rw [Key.history?, Option.all_some, Bool.not_eq_true']
            exact Bool.eq_false_iff.mpr fun hany => hkey (any_history.mp hany)
        | folder id => rfl
        | sublist peer => rfl
        | topic id => rfl
      · rw [if_neg fun hboth => hold hboth.1, h.index, positions, if_neg hold]

/-- The two keys change places. -/
theorem set_set_eq_map {a b : Key} {i j : Nat} (hnodup : data.Nodup) (ha : data[i]? = some a)
    (hb : data[j]? = some b) :
    (data.set i b).set j a = data.map (Equiv.swap a b) := by
  obtain ⟨hi, -⟩ := List.getElem?_eq_some_iff.mp ha
  obtain ⟨hj, -⟩ := List.getElem?_eq_some_iff.mp hb
  refine List.ext_getElem? fun k => ?_
  rw [List.getElem?_map, List.getElem?_set, List.length_set, List.getElem?_set]
  by_cases hjk : j = k
  · subst hjk
    rw [if_pos rfl, if_pos hj, hb, Option.map_some, Equiv.swap_apply_right]
  · rw [if_neg hjk]
    by_cases hik : i = k
    · subst hik
      rw [if_pos rfl, if_pos hi, ha, Option.map_some, Equiv.swap_apply_left]
    · rw [if_neg hik]
      cases hc : data[k]? with
      | none => rfl
      | some c =>
          have hca : c ≠ a := by
            rintro rfl
            exact hik ((List.getElem?_inj hi hnodup).mp (ha.trans hc.symm))
          have hcb : c ≠ b := by
            rintro rfl
            exact hjk ((List.getElem?_inj hj hnodup).mp (hb.trans hc.symm))
          rw [Option.map_some, Equiv.swap_apply_of_ne_of_ne hca hcb]

theorem positions_map (σ : Equiv.Perm Key) :
    positions (data.map σ) (σ key) = positions data key := by
  have hidx : (data.map σ).idxOf (σ key) = data.idxOf key := by
    induction data with
    | nil => rfl
    | cons k data ih =>
        rw [List.map_cons, List.idxOf_cons, List.idxOf_cons, ih]
        by_cases heq : k = key
        · rw [heq, beq_self_eq_true, beq_self_eq_true]
        · rw [beq_false_of_ne heq, beq_false_of_ne fun hσ => heq (σ.injective hσ)]
  simp only [positions, hidx, List.mem_map, σ.injective.eq_iff, exists_eq_right]

theorem Consistent.reorder {key1 key2 : Key} (h : l.Consistent)
    (hreorder : l.reorder key1 key2 = some l') :
    l'.Consistent ∧ l'.limit = l.limit ∧ l'.data.length = l.data.length := by
  obtain ⟨⟨h1, h2, hne⟩, hreorder⟩ := Option.ite_none_right_eq_some.mp hreorder
  obtain rfl := Option.some.inj hreorder
  have hmem1 : key1 ∈ l.data := List.idxOf_lt_length_iff.mp h1
  have hmem2 : key2 ∈ l.data := List.idxOf_lt_length_iff.mp h2
  have hkeys : key1 ≠ key2 := by
    rintro rfl
    exact hne rfl
  have hdata := set_set_eq_map h.nodup (List.getElem?_idxOf hmem1) (List.getElem?_idxOf hmem2)
  refine ⟨⟨?_, funext fun k => ?_⟩, rfl, by simp⟩
  · exact hdata ▸ h.nodup.map (Equiv.swap key1 key2).injective
  · dsimp only
    rw [hdata, ← (Equiv.swap key1 key2).apply_symm_apply k, positions_map, Equiv.symm_swap,
      Equiv.swap_apply_self, positions]
    by_cases hk2 : k = key2
    · rw [hk2, Function.update_self, Equiv.swap_apply_right, if_pos hmem1]
    · rw [Function.update_of_ne hk2]
      by_cases hk1 : k = key1
      · rw [hk1, Function.update_self, Equiv.swap_apply_left, if_pos hmem2]
      · rw [Function.update_of_ne hk1, h.index, Equiv.swap_apply_of_ne_of_ne hk1 hk2, positions]

/-! ## Every action -/

/-- What an action keeps: the list stays consistent and within its limit. -/
structure Keeps (l l' : PinnedList) : Prop where
  consistent : l'.Consistent
  limit_pos : 0 < l'.limit
  fits : l.data.length ≤ l.limit → l'.data.length ≤ l'.limit

theorem Keeps.trans {l'' : PinnedList} (h : Keeps l l') (h' : Keeps l' l'') : Keeps l l'' :=
  ⟨h'.consistent, h'.limit_pos, fun hfits => h'.fits (h.fits hfits)⟩

theorem Consistent.keeps_applyLimit (h : l.Consistent) (hpos : 0 < l.limit) (limit : Nat) :
    Keeps l (l.applyLimit limit) := by
  obtain ⟨hgood, hdata, hlimit, -⟩ := h.applyLimit limit
  refine ⟨hgood, hlimit ▸ hpos, fun hfits => ?_⟩
  rw [hdata, hlimit, List.length_take]
  omega

theorem Consistent.keeps_addPinned (h : l.Consistent) (hpos : 0 < l.limit)
    (hadd : l.addPinned known key = some l') : Keeps l l' := by
  obtain ⟨-, hadd⟩ := Option.ite_none_right_eq_some.mp hadd
  obtain rfl := Option.some.inj hadd
  obtain ⟨hgood, hlimit, before, after, hdata, -, hwhere⟩ := h.addPinnedGetPosition key
  refine ⟨hgood, hlimit ▸ hpos, fun hfits => ?_⟩
  rcases hwhere with ⟨-, hsplit, -⟩ | ⟨-, hbefore, hafter⟩
  · rw [hdata, ← hsplit, hlimit]
    exact hfits
  · rw [hdata, hlimit, hbefore, hafter, List.length_append, List.length_take, List.length_cons,
      List.length_nil]
    omega

theorem Consistent.keeps_setPinned {pinned : Bool} (h : l.Consistent) (hpos : 0 < l.limit)
    (hpin : l.setPinned known key pinned = some l') : Keeps l l' := by
  cases pinned with
  | true =>
      obtain ⟨hgood, hlimit, hdata⟩ := h.setPinned hpin
      refine ⟨hgood, hlimit ▸ hpos, fun hfits => ?_⟩
      rw [hdata, hlimit, List.length_cons]
      split
      · next hkey =>
          have hlength := List.length_erase_of_mem hkey
          have hsome := List.length_pos_of_mem hkey
          omega
      · rw [List.length_take]
        omega
  | false =>
      unfold PinnedList.setPinned at hpin
      split at hpin
      · cases hpin
      · obtain rfl := Option.some.inj hpin
        by_cases hkey : key ∈ l.data
        · obtain ⟨before, after, hsplit⟩ := List.append_of_mem hkey
          obtain ⟨hgood, -, hlimit, -⟩ := h.unpin_split hsplit
          refine ⟨hgood, hlimit ▸ hpos, fun hfits => ?_⟩
          have hlength := length_unpin hkey
          omega
        · rw [unpin_notMem hkey]
          exact ⟨h, hpos, id⟩

theorem Consistent.keeps_addAll {items : List (Key × Bool)} (h : l.Consistent)
    (hpos : 0 < l.limit) (hadd : l.addAll items = some l') : Keeps l l' := by
  have hclear := h.keeps_applyLimit hpos 0
  refine hclear.trans ?_
  unfold PinnedList.addAll clear at hadd
  generalize l.applyLimit 0 = cleared at hadd hclear
  obtain ⟨hgood, hpos, -⟩ := hclear
  induction items generalizing cleared with
  | nil =>
      obtain rfl := Option.some.inj hadd
      exact ⟨hgood, hpos, id⟩
  | cons item items ih =>
      rw [List.foldlM_cons] at hadd
      obtain ⟨middle, hmiddle, hadd⟩ := Option.bind_eq_some_iff.mp hadd
      have hitem := hgood.keeps_addPinned hpos hmiddle
      exact hitem.trans (ih middle hadd hitem.consistent hitem.limit_pos)

theorem Consistent.keeps_next {a : Action} (h : l.Consistent) (hpos : 0 < l.limit)
    (ha : ∀ list, a ≠ .applyHistories list) (hnext : l.next a = some l') : Keeps l l' := by
  cases a with
  | setLimit limit =>
      change l.setLimit limit = some l' at hnext
      unfold PinnedList.setLimit at hnext
      split at hnext
      · cases hnext
      · next hne =>
          split at hnext
          · obtain rfl := Option.some.inj hnext
            exact ⟨h, hpos, id⟩
          · obtain rfl := Option.some.inj hnext
            have hset : Consistent { l with limit } := ⟨h.nodup, h.index⟩
            obtain ⟨hgood, hdata, hlimit, -⟩ := hset.applyLimit limit
            have hnew : 0 < limit := Nat.pos_of_ne_zero hne
            refine ⟨hgood, hlimit ▸ hnew, fun _ => ?_⟩
            rw [hdata, hlimit, List.length_take]
            exact Nat.min_le_left _ _
  | addPinned known key => exact h.keeps_addPinned hpos hnext
  | setPinned known key pinned => exact h.keeps_setPinned hpos hnext
  | clear =>
      obtain rfl := Option.some.inj hnext
      exact h.keeps_applyLimit hpos 0
  | applySession channelLoaded list => exact h.keeps_addAll hpos hnext
  | applySublists list => exact h.keeps_addAll hpos hnext
  | applyTopics list => exact h.keeps_addAll hpos hnext
  | applyHistories list => exact absurd rfl (ha list)
  | reorder key1 key2 =>
      obtain ⟨hgood, hlimit, hlength⟩ := h.reorder hnext
      refine ⟨hgood, hlimit ▸ hpos, fun hfits => ?_⟩
      rw [hlimit, hlength]
      exact hfits

theorem consistent_of_reachable (h : system.Reachable l) : l.Consistent ∧ 0 < l.limit := by
  induction h with
  | init hinit =>
      obtain ⟨filterId, limit, hpos, rfl⟩ := hinit
      exact ⟨⟨List.nodup_nil, rfl⟩, hpos⟩
  | @step l l' a _ _ hstep ih =>
      obtain ⟨hgood, hpos⟩ := ih
      obtain ⟨hdistinct, hnext⟩ := hstep
      by_cases ha : ∃ list, a = .applyHistories list
      · obtain ⟨list, rfl⟩ := ha
        obtain ⟨hnew, -, hlimit⟩ := hgood.applyHistories (hdistinct list rfl) hnext
        exact ⟨hnew, hlimit ▸ hpos⟩
      · have hkeeps := hgood.keeps_next hpos (fun list heq => ha ⟨list, heq⟩) hnext
        exact ⟨hkeeps.consistent, hkeeps.limit_pos⟩

/-- **Pinned positions stay consistent.**  In every state the keys are distinct and their
entries cache their indices, a key that is newly pinned comes first, and every action but the
application of histories keeps the list within its limit. -/
theorem positions_consistent {l : PinnedList} (h : system.Reachable l) :
    l.data.Nodup ∧
    (∀ i key, l.data[i]? = some key → l.index key = i + 1) ∧
    (∀ key, key ∉ l.data → l.index key = 0) ∧
    (∀ known key l', key ∉ l.data → l.setPinned known key true = some l' →
      l'.data = key :: l.data.take (l.limit - 1)) ∧
    ∀ a l', (∀ list, a ≠ .applyHistories list) → l.next a = some l' →
      l.data.length ≤ l.limit → l'.data.length ≤ l'.limit := by
  obtain ⟨hgood, hpos⟩ := consistent_of_reachable h
  refine ⟨hgood.nodup, fun i key hkey => ?_, fun key hkey => ?_, fun known key l' hkey hpin => ?_,
    fun a l' ha hnext => (hgood.keeps_next hpos ha hnext).fits⟩
  · obtain ⟨hlt, hget⟩ := List.getElem?_eq_some_iff.mp hkey
    rw [hgood.index, positions, if_pos (List.mem_of_getElem? hkey), ← hget,
      hgood.nodup.idxOf_getElem]
  · rw [hgood.index, positions, if_neg hkey]
  · rw [(hgood.setPinned hpin).2.2, if_neg hkey]

/-- Two histories of a filter with two places. -/
theorem positions_consistent_two :
    ∃ l, (⟨1, 2, [], fun _ => 0⟩ : PinnedList).applyHistories [7, 8] = some l ∧
      l.index (.history 8) = 2 ∧ l.index (.folder 1) = 0 ∧
      ∀ l', l.setPinned true (.folder 1) true = some l' → l'.data = [.folder 1, .history 7] := by
  refine ⟨_, rfl, ?_⟩
  have hreached : system.Reachable _ :=
    .step (.init ⟨1, 2, by decide, rfl⟩) trivial (a := .applyHistories [7, 8])
      ⟨fun list heq => by cases heq; decide, rfl⟩
  obtain ⟨-, hindex, hnone, hfirst, -⟩ := positions_consistent hreached
  exact ⟨hindex 1 (.history 8) rfl, hnone (.folder 1) (by decide),
    fun l' hpin => hfirst true (.folder 1) l' (by decide) hpin⟩

end PinnedList

end Dialogs

end MessengerClient
