import MessengerClient.MessageReactions
import MessengerClient.Lib.FlatMap
import MessengerClient.Lib.Runs
import Mathlib

/-!
# MessengerClient.MessageReactions.Local

The reactions of a message other than the paid part: their counts, and the people who reacted
lately.  `add` takes back reactions of the user that are over the limit, and `change` rebuilds both
from what the server says.

What an item asks of its session is kept in its order; a failed `Expects` or `Assert` is `none`.
-/

namespace MessengerClient

namespace Data

open MessageReactions (PeerId)

/-! ## Data -/

inductive ReactionId where
  | emoji (text : String)
  | document (id : Nat)
deriving Repr

namespace ReactionId

/-- The order of the keys arranges `_recent`. -/
def key : ReactionId → String ⊕ₗ Nat
  | emoji text => toLex (.inl text)
  | document id => toLex (.inr id)

theorem key_injective : Function.Injective key := by
  intro a b h
  cases a <;> cases b <;> cases h <;> rfl

instance : LinearOrder ReactionId := LinearOrder.lift' key key_injective

def empty (id : ReactionId) : Bool := id = .emoji ""

def paid (id : ReactionId) : Bool := id = .emoji "*"

end ReactionId

structure MessageReaction where
  id : ReactionId
  count : Int := 0
  my : Bool := false
deriving DecidableEq

structure RecentReaction where
  peer : PeerId
  unread : Bool := false
  big : Bool := false
  my : Bool := false
deriving DecidableEq, Repr

abbrev RecentReactions : Type := FlatMap ReactionId (List RecentReaction)

/-- `MTPDreactionCount`. -/
structure ReactionCount where
  reaction : ReactionId
  chosenOrder : Option Int
  count : Int

/-- `MTPDmessagePeerReaction`. -/
structure PeerReaction where
  reaction : ReactionId
  peer : PeerId
  isUnread : Bool
  isBig : Bool
  isMy : Bool

inductive ReactionsCall where
  | incrementMyTag (id : ReactionId)
  | decrementMyTag (id : ReactionId)
  | send (addToRecent : Bool)
  | notifyItemDataChange

/-- What is read of the item, and of its history and session. -/
structure ItemContext where
  sentReactionsLimit : Int
  reactionsAreTags : Bool
  canViewReactions : Bool
  peerIsUser : Bool
  resolveChosen : PeerId
  sending : Bool

/-- `ranges::sort` by a number; the order of equal elements is not known. -/
structure Sorter where
  sort : (MessageReaction → Int) → List MessageReaction → List MessageReaction
  perm : ∀ proj list, (sort proj list).Perm list
  sorted : ∀ proj list, ((sort proj list).map proj).Pairwise (· ≤ ·)

/-- The `_list` and the `_recent` of `MessageReactions`. -/
structure LocalReactions where
  list : List MessageReaction := []
  recent : RecentReactions := ∅

namespace LocalReactions

variable (s : LocalReactions)

def chosen : List ReactionId := (s.list.filter (·.my)).map (·.id)

/-! ## Adding and removing -/

/-- A reaction of the user that goes takes the user's entry with it, and all with its last one. -/
def forgetMine (recent : RecentReactions) (id : ReactionId) (removed : Bool) : RecentReactions :=
  match recent.find? id with
  | none => recent
  | some list =>
    if removed then
      recent.erase id
    else
      let list := list.filter (!·.my)
      if list.isEmpty then recent.erase id else recent.insert id list

/-- `one.my = false` and `--one.count`: what is left of a reaction that is taken back. -/
def takenBack (one : MessageReaction) : List MessageReaction :=
  if one.count - 1 = 0 then [] else [{ one with my := false, count := one.count - 1 }]

/-- The `remove_if` of `add`; `my` is its counter. -/
def evict (item : ItemContext) : Int → List MessageReaction → RecentReactions →
    List MessageReaction × RecentReactions × List ReactionsCall
  | _, [], recent => ([], recent, [])
  | my, one :: rest, recent =>
    if one.id.paid then
      let (rest, recent, calls) := evict item my rest recent
      (one :: rest, recent, calls)
    else
      let my := if one.my && my ≠ item.sentReactionsLimit then my + 1 else my
      if one.my && my = item.sentReactionsLimit then
        let recent := forgetMine recent one.id (one.count - 1 = 0)
        let (rest, recent, calls) := evict item my rest recent
        let tagged : List ReactionsCall :=
          if item.reactionsAreTags then [.decrementMyTag one.id] else []
        (takenBack one ++ rest, recent, tagged ++ calls)
      else
        let (rest, recent, calls) := evict item my rest recent
        (one :: rest, recent, calls)

/-- The reaction goes to the end of the list. -/
def push (list : List MessageReaction) (id : ReactionId) : List MessageReaction :=
  match list.find? (·.id = id) with
  | some one =>
    list.eraseP (·.id = id) ++ [{ one with my := true, count := one.count + 1 }]
  | none => list ++ [{ id, count := 1, my := true }]

def add (item : ItemContext) (id : ReactionId) (addToRecent : Bool) :
    Option (LocalReactions × List ReactionsCall) :=
  if id.empty || id.paid then
    none
  else if id ∈ s.chosen then
    some (s, [])
  else
    let tagged : List ReactionsCall := if item.reactionsAreTags then [.incrementMyTag id] else []
    let (list, recent, calls) := evict item 0 s.list s.recent
    let recent := if item.canViewReactions || item.peerIsUser then
        recent.insert id ({ peer := item.resolveChosen, my := true } :: (recent.find? id).getD [])
      else recent
    some ({ list := push list id, recent },
      tagged ++ calls ++ [.send addToRecent, .notifyItemDataChange])

/-- `i->my = false`, `--i->count` and `_list.erase(i)` at the first with the id. -/
def takeBack (id : ReactionId) : List MessageReaction → List MessageReaction
  | [] => []
  | one :: rest =>
    if one.id = id then takenBack one ++ rest else one :: takeBack id rest

def remove (self : PeerId) (item : ItemContext) (id : ReactionId) :
    Option (LocalReactions × List ReactionsCall) :=
  if id.paid then
    none
  else
    match s.list.find? (·.id = id) with
    | none => if (s.recent.find? id).isNone then some (s, []) else none
    | some one =>
      if !one.my then
        if (s.recent.find? id).all (·.all (·.peer ≠ self)) then some (s, []) else none
      else
        let calls : List ReactionsCall :=
          if item.reactionsAreTags then [.decrementMyTag id] else []
        some ({ list := takeBack id s.list
                recent := forgetMine s.recent id (one.count - 1 = 0) },
          calls ++ [.send false, .notifyItemDataChange])

/-! ## Changes from the server -/

def isMyRecent (self : PeerId) (data : PeerReaction) (recent : RecentReactions) (min : Bool) :
    Bool :=
  if data.peer = self then true
  else if !min then data.isMy
  else ((recent.find? data.reaction).bind (·.find? (·.peer = data.peer))).any (·.my)

/-- The first reaction with the id, changed. -/
def modifyFirst (id : ReactionId) (f : MessageReaction → MessageReaction) :
    List MessageReaction → List MessageReaction
  | [] => []
  | one :: rest => if one.id = id then f one :: rest else one :: modifyFirst id f rest

/-- One of the counts; the flag is `changed`. -/
def applyCount (min : Bool) (state : List MessageReaction × Bool) (data : ReactionCount) :
    List MessageReaction × Bool :=
  match state.1.find? (·.id = data.reaction) with
  | none =>
    (state.1 ++ [{ id := data.reaction, count := data.count,
                   my := !min && data.chosenOrder.isSome }], true)
  | some one =>
    let nowMy := if min then one.my else data.chosenOrder.isSome
    if one.count ≠ data.count ∨ one.my ≠ nowMy then
      (modifyFirst data.reaction (fun one => { one with count := data.count, my := nowMy }) state.1,
        true)
    else
      state

def minimal : Int := -2 ^ 31

def orderOf (list : List ReactionCount) (min : Bool) : FlatMap ReactionId Int :=
  list.foldl (fun order data =>
    match data.chosenOrder with
    | some chosen => if min then order else order.insert data.reaction chosen
    | none => order) ∅

def correctOrder (proj : MessageReaction → Int) : Int → List MessageReaction → Bool
  | _, [] => true
  | previous, one :: rest =>
    if proj one < previous then false else correctOrder proj (proj one) rest

/-- One of the people who reacted lately. -/
def applyRecent (self : PeerId) (list : List MessageReaction) (recent : RecentReactions)
    (min : Bool) (parsed : RecentReactions) (data : PeerReaction) : RecentReactions :=
  match list.find? (·.id = data.reaction) with
  | none => parsed
  | some one =>
    let known := (parsed.find? data.reaction).getD []
    if (known.length : Int) ≥ one.count then
      parsed.insert data.reaction known
    else
      parsed.insert data.reaction (known ++ [{
        peer := data.peer
        unread := data.isUnread
        big := data.isBig
        my := isMyRecent self data recent min }])

/-- The counts and the recent people; the flag is `changed`. -/
def change (self : PeerId) (sorter : Sorter) (item : ItemContext) (list : List ReactionCount)
    (recent : List PeerReaction) (min : Bool) : LocalReactions × Bool :=
  if item.sending then
    (s, false)
  else
    let existing := (list.map (·.reaction)).dedup
    let order := orderOf list min
    let proj (one : MessageReaction) : Int :=
      if one.my then (order.find? one.id).getD 0 else minimal
    let (now, changed) := list.foldl (applyCount min) (s.list, false)
    let (now, changed) :=
      if !min && order ≠ ∅ && !correctOrder proj minimal now then (sorter.sort proj now, true)
      else (now, changed)
    let (now, changed) :=
      if now.length ≠ existing.length then (now.filter (·.id ∈ existing), true)
      else (now, changed)
    let parsed := recent.foldl (applyRecent self now s.recent min) ∅
    ({ list := now, recent := parsed }, changed || s.recent ≠ parsed)

end LocalReactions

end Data

end MessengerClient
