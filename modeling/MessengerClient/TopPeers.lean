import MessengerClient.Lib.Runs
import Mathlib

/-!
# MessengerClient.TopPeers

`Data::TopPeers` of `data/components/top_peers.cpp`: the list of top peers, and the requests that
refresh it, reset a rating or turn the list off.

`requestId` keeps a second request for the list from being sent, but the request that resets a
rating is written to it as well, and its answer does not clear it.  Where ratings are reset only
while the list is being requested, the guard is right (`requestId_guards`).

Ratings are of any type, with what is done with them.  The events are left out.
-/

namespace MessengerClient

namespace Data

inductive TopPeerType where
  | Chat
  | BotGuestChat
  | BotApp
deriving DecidableEq, Repr

/-- The `MTPTopPeerCategory` of each type, and those of no type. -/
inductive TopPeerCategory where
  | of (type : TopPeerType)
  | other
deriving DecidableEq, Repr

def kRequestTimeLimit : Int := 10 * 1000

structure TopPeer (Peer Rating : Type) where
  peer : Peer
  rating : Rating
deriving DecidableEq, Repr

inductive TopPeersRequest (Peer : Type) where
  | GetTopPeers
  | ResetTopPeerRating (peer : Peer)
  | ToggleTopPeers (enabled : Bool)
deriving DecidableEq, Repr

/-- `contacts.TopPeers`, with the categories of a list. -/
inductive TopPeersResult (Peer Rating : Type) where
  | topPeers (categories : List (TopPeerCategory × List (TopPeer Peer Rating)))
  | topPeersDisabled
  | topPeersNotModified

/-- No request is zero.  `inFlight` are the requests without an answer, each with its number, and
`sent` is how many were sent. -/
structure TopPeers (Peer Rating : Type) where
  list : List (TopPeer Peer Rating) := []
  lastReceived : Int := 0
  lastReceivedDate : Int := 0
  requestId : Nat := 0
  disabled : Bool := false
  inFlight : List (Nat × TopPeersRequest Peer) := []
  sent : Nat := 0
deriving DecidableEq, Repr

/-- `float64`, with `RatingDelta` for the decay of the configuration. -/
structure Ratings (Rating : Type) where
  zero : Rating
  add : Rating → Rating → Rating
  ge : Rating → Rating → Bool
  RatingDelta : Int → Int → Rating

namespace TopPeers

variable {Peer Rating : Type} [DecidableEq Peer] (ratings : Ratings Rating) (type : TopPeerType)
  (CanIncrementPeer : Peer → Bool) (s : TopPeers Peer Rating)

/-- The number of the request is `sent` after it. -/
def send (request : TopPeersRequest Peer) : TopPeers Peer Rating :=
  { s with inFlight := s.inFlight ++ [(s.sent + 1, request)], sent := s.sent + 1 }

def request : TopPeers Peer Rating :=
  if s.requestId ≠ 0 then s
  else
    let s := s.send .GetTopPeers
    { s with requestId := s.sent }

def reload (now : Int) : TopPeers Peer Rating :=
  if s.requestId ≠ 0 ∨ s.lastReceived ≠ 0 ∧ s.lastReceived + kRequestTimeLimit > now then s
  else s.request

def remove (peer : Peer) : TopPeers Peer Rating :=
  let s := { s with list := s.list.eraseP (·.peer = peer) }.send (.ResetTopPeerRating peer)
  { s with requestId := s.sent }

/-- The loop of `increment`: those before the peer, the last one first. -/
def raise (one : TopPeer Peer Rating) :
    List (TopPeer Peer Rating) → List (TopPeer Peer Rating) → List (TopPeer Peer Rating)
  | [], after => one :: after
  | previous :: before, after =>
    if ratings.ge one.rating previous.rating then raise one before (previous :: after)
    else (previous :: before).reverse ++ one :: after

def increment (peer : Peer) (date : Int) : TopPeers Peer Rating :=
  if s.disabled || date ≤ s.lastReceivedDate then s
  else if !CanIncrementPeer peer then s
  else
    let list := if (s.list.find? (·.peer = peer)).isSome then s.list
      else s.list ++ [⟨peer, ratings.zero⟩]
    let i := list.findIdx (·.peer = peer)
    match list[i]? with
    | none => s
    | some one =>
      let one := { one with
        rating := ratings.add one.rating (ratings.RatingDelta date s.lastReceivedDate) }
      { s with list := raise ratings one (list.take i).reverse (list.drop (i + 1)) }

def toggleDisabled (disabled : Bool) : TopPeers Peer Rating :=
  let s := if disabled then
      if !s.disabled || s.list ≠ [] then { s with disabled := true, list := [] } else s
    else if s.disabled then { s with disabled := false }
    else s
  s.send (.ToggleTopPeers !disabled)

/-- What is read from the local storage, of what was written there before. -/
def applyLocal (disabled : Bool) (list : List (TopPeer Peer Rating)) : TopPeers Peer Rating :=
  if s.lastReceived ≠ 0 then s else { s with list := list, disabled := disabled }

/-! ## Answers -/

/-- The loop over the categories of an answer. -/
def applyCategories : List (TopPeerCategory × List (TopPeer Peer Rating)) →
    List (TopPeer Peer Rating) → List (TopPeer Peer Rating)
  | [], list => list
  | (category, peers) :: rest, list =>
    applyCategories rest (if category = .of type then peers else list)

def applyResult : TopPeersResult Peer Rating → TopPeers Peer Rating
  | .topPeers categories =>
    { s with disabled := false, list := applyCategories type categories s.list }
  | .topPeersDisabled => if s.disabled then s else { s with list := [], disabled := true }
  | .topPeersNotModified => s

/-- `none` as the result is a failure. -/
def received (date now : Int) (result : Option (TopPeersResult Peer Rating)) :
    TopPeers Peer Rating :=
  match result with
  | some result =>
    { s with lastReceivedDate := date, lastReceived := now, requestId := 0 }.applyResult type result
  | none => { s with lastReceived := now, requestId := 0 }

def toggled (done : Bool) : TopPeers Peer Rating :=
  if done && !s.disabled then s.request else s

/-! ## Runs -/

inductive Action (Peer Rating : Type) where
  | increment (peer : Peer) (date : Int)
  | remove (peer : Peer)
  | toggleDisabled (disabled : Bool)
  | reload (now : Int)
  | request
  | applyLocal (disabled : Bool) (list : List (TopPeer Peer Rating))
  /-- The answer to `GetTopPeers`. -/
  | received (id : Nat) (date now : Int) (result : Option (TopPeersResult Peer Rating))
  | toggled (id : Nat) (enabled done : Bool)
  | reset (id : Nat) (peer : Peer)

/-- The request that an action answers. -/
def Action.answered : Action Peer Rating → Option (Nat × TopPeersRequest Peer)
  | .received id .. => some (id, .GetTopPeers)
  | .toggled id enabled _ => some (id, .ToggleTopPeers enabled)
  | .reset id peer => some (id, .ResetTopPeerRating peer)
  | _ => none

def act (s : TopPeers Peer Rating) : Action Peer Rating → TopPeers Peer Rating
  | .increment peer date => s.increment ratings CanIncrementPeer peer date
  | .remove peer => s.remove peer
  | .toggleDisabled disabled => s.toggleDisabled disabled
  | .reload now => s.reload now
  | .request => s.request
  | .applyLocal disabled list => s.applyLocal disabled list
  | .received _ date now result => s.received type date now result
  | .toggled _ _ done => s.toggled done
  | .reset .. => s

/-- A request that is answered is not in flight any more. -/
def settle (s : TopPeers Peer Rating) (a : Action Peer Rating) : TopPeers Peer Rating :=
  { s with inFlight := s.inFlight.filter (some · ≠ a.answered) }

def system : System (TopPeers Peer Rating) (Action Peer Rating) where
  init s := s = {}
  step s a s' := (∀ request ∈ a.answered, request ∈ s.inFlight) ∧
    act ratings type CanIncrementPeer (s.settle a) a = s'

/-- The lists of the server have every peer once. -/
def Served : Option (TopPeersResult Peer Rating) → Prop
  | some (.topPeers categories) =>
    ∀ category ∈ categories, (category.2.map TopPeer.peer).Nodup
  | _ => True

/-- The lists of the server and of the local storage have every peer once, and ratings are reset
while the list is being requested. -/
def Expected (s : TopPeers Peer Rating) : Action Peer Rating → Prop
  | .remove _ => ∃ id, (id, .GetTopPeers) ∈ s.inFlight
  | .applyLocal _ list => (list.map TopPeer.peer).Nodup
  | .received _ _ _ result => Served result
  | _ => True

/-- The requests for the list. -/
def gets (s : TopPeers Peer Rating) : List (Nat × TopPeersRequest Peer) :=
  s.inFlight.filter (·.2 = .GetTopPeers)

/-- There is one request for the list if `requestId` says so, and none if it does not. -/
structure Guarded (s : TopPeers Peer Rating) : Prop where
  gets : s.gets.length = if s.requestId = 0 then 0 else 1
  nodup : (s.list.map TopPeer.peer).Nodup

section

variable {ratings type CanIncrementPeer s} {a : Action Peer Rating} {id : Nat}
  {one : TopPeer Peer Rating} {before after list : List (TopPeer Peer Rating)}

theorem gets_send (request : TopPeersRequest Peer) : (s.send request).gets =
    s.gets ++ if request = .GetTopPeers then [(s.sent + 1, request)] else [] := by
  simp only [gets, send, List.filter_append, List.filter_cons, List.filter_nil, decide_eq_true_eq]

theorem gets_ne_nil_iff : s.gets ≠ [] ↔ ∃ id, (id, .GetTopPeers) ∈ s.inFlight := by
  simp [gets, List.filter_eq_nil_iff]

/-- **A request for the list** is sent where the guard is right and there is none. -/
theorem Guarded.request (h : s.Guarded) : s.request.Guarded := by
  rw [TopPeers.request]
  split
  · exact h
  · next hzero =>
    have hgets := h.gets
    simp only [ne_eq, not_not] at hzero
    rw [if_pos hzero, List.length_eq_zero_iff] at hgets
    refine ⟨?_, h.nodup⟩
    have hsend : (s.send .GetTopPeers).gets = [(s.sent + 1, .GetTopPeers)] := by
      simp [gets_send, hgets]
    refine Eq.trans (congrArg List.length hsend) ?_
    simp [TopPeers.send]

theorem Guarded.send (h : s.Guarded) {request : TopPeersRequest Peer}
    (hrequest : request ≠ .GetTopPeers) : (s.send request).Guarded := by
  refine ⟨?_, h.nodup⟩
  rw [gets_send, if_neg hrequest, List.append_nil]
  exact h.gets

/-- **A rating is reset** with the guard right exactly while the list is being requested. -/
theorem guarded_remove_iff (h : s.Guarded) (peer : Peer) :
    (s.remove peer).Guarded ↔ ∃ id, (id, .GetTopPeers) ∈ s.inFlight := by
  have hgets : (s.remove peer).gets = s.gets := by
    simp [TopPeers.remove, TopPeers.send, TopPeers.gets]
  have hnodup : ((s.remove peer).list.map TopPeer.peer).Nodup :=
    h.nodup.sublist (List.eraseP_sublist.map _)
  have hid : (s.remove peer).requestId ≠ 0 := by simp [TopPeers.remove, TopPeers.send]
  rw [← gets_ne_nil_iff, ← List.length_pos_iff]
  constructor
  · intro hremove
    have hone := hremove.gets
    rw [hgets, if_neg hid] at hone
    omega
  · intro hpos
    refine ⟨?_, hnodup⟩
    have hone := h.gets
    rw [hgets, if_neg hid]
    split at hone <;> omega

omit [DecidableEq Peer] in
theorem raise_perm : (raise ratings one before after).Perm (before.reverse ++ one :: after) := by
  induction before generalizing after with
  | nil => exact .refl _
  | cons previous before ih =>
    rw [raise]
    split
    · refine ih.trans ?_
      rw [List.reverse_cons, List.append_assoc, List.singleton_append]
      exact (List.Perm.swap previous one after).append_left _
    · exact .refl _

omit [DecidableEq Peer] in
/-- The rating of a peer changes, and the peer goes up. -/
theorem raised_nodup {i : Nat} {rating : Rating} (hone : list[i]? = some one)
    (hlist : (list.map TopPeer.peer).Nodup) :
    ((raise ratings { one with rating := rating } (list.take i).reverse
      (list.drop (i + 1))).map TopPeer.peer).Nodup := by
  have hperm := (@raise_perm _ _ ratings { one with rating := rating } (list.take i).reverse
    (list.drop (i + 1))).map TopPeer.peer
  obtain ⟨hlt, heq⟩ := List.getElem?_eq_some_iff.mp hone
  have hsplit : list.take i ++ one :: list.drop (i + 1) = list := by
    rw [← heq, List.getElem_cons_drop, List.take_append_drop]
  have hsame : ((list.take i).reverse.reverse ++ { one with rating := rating } ::
      list.drop (i + 1)).map TopPeer.peer = list.map TopPeer.peer := by
    conv_rhs => rw [← hsplit]
    simp
  rw [hsame] at hperm
  exact hperm.nodup_iff.mpr hlist

theorem increment_keeps (s : TopPeers Peer Rating) (peer : Peer) (date : Int) :
    ∃ list, s.increment ratings CanIncrementPeer peer date = { s with list := list } ∧
      ((s.list.map TopPeer.peer).Nodup → (list.map TopPeer.peer).Nodup) := by
  have hsame : ∃ list, s = { s with list := list } ∧
      ((s.list.map TopPeer.peer).Nodup → (list.map TopPeer.peer).Nodup) :=
    ⟨s.list, rfl, fun h => h⟩
  rw [increment]
  split
  · exact hsame
  · split
    · exact hsame
    · dsimp only
      split
      · exact hsame
      · next one hone =>
        refine ⟨_, rfl, fun h => raised_nodup hone ?_⟩
        split
        · exact h
        · next hnone =>
          simp only [Option.isSome_iff_ne_none, ne_eq, not_not, List.find?_eq_none,
            decide_eq_true_eq] at hnone
          rw [List.map_append, List.nodup_append]
          exact ⟨h, by simp, by simpa using hnone⟩

omit [DecidableEq Peer] in
theorem applyCategories_nodup {categories : List (TopPeerCategory × List (TopPeer Peer Rating))}
    (h : ∀ category ∈ categories, (category.2.map TopPeer.peer).Nodup)
    (hlist : (list.map TopPeer.peer).Nodup) :
    ((applyCategories type categories list).map TopPeer.peer).Nodup := by
  induction categories generalizing list with
  | nil => exact hlist
  | cons category rest ih =>
    obtain ⟨hfirst, hrest⟩ := List.forall_mem_cons.mp h
    refine ih hrest ?_
    split
    · exact hfirst
    · exact hlist

/-- **An answer for the list** clears the guard. -/
theorem guarded_received {date now : Int} {result : Option (TopPeersResult Peer Rating)}
    (hgets : s.gets = []) (hlist : (s.list.map TopPeer.peer).Nodup)
    (hserved : Served result) :
    (s.received type date now result).Guarded := by
  cases result with
  | none => exact ⟨by simpa [received, TopPeers.gets] using hgets, hlist⟩
  | some result =>
    cases result with
    | topPeers categories =>
      refine ⟨by simpa [received, applyResult, TopPeers.gets] using hgets, ?_⟩
      exact applyCategories_nodup hserved hlist
    | topPeersDisabled =>
      simp only [received, applyResult]
      split
      · exact ⟨by simpa [TopPeers.gets] using hgets, hlist⟩
      · exact ⟨by simpa [TopPeers.gets] using hgets, by simp⟩
    | topPeersNotModified =>
      exact ⟨by simpa [received, applyResult, TopPeers.gets] using hgets, hlist⟩

theorem settle_of_none (h : a.answered = none) : s.settle a = s := by
  simp [settle, h]

theorem gets_settle : (s.settle a).gets = s.gets.filter (some · ≠ a.answered) := by
  simp only [TopPeers.gets, settle, List.filter_filter, Bool.and_comm]

/-- The answer to another request leaves the guard as it is. -/
theorem Guarded.settle (h : s.Guarded) (ha : ∀ id, a.answered ≠ some (id, .GetTopPeers)) :
    (s.settle a).Guarded := by
  refine ⟨?_, h.nodup⟩
  have hsame : (s.settle a).gets = s.gets := by
    rw [gets_settle, List.filter_eq_self]
    intro request hrequest
    have hget := of_decide_eq_true (List.mem_filter.mp hrequest).2
    refine decide_eq_true fun heq => ha request.1 ?_
    rw [← hget, ← heq]
  rw [hsame]
  exact h.gets

/-- The only request for the list is the one that is answered. -/
theorem gets_settle_received (h : s.Guarded) (ha : a.answered = some (id, .GetTopPeers))
    (hmem : (id, .GetTopPeers) ∈ s.inFlight) : (s.settle a).gets = [] := by
  have hin : (id, .GetTopPeers) ∈ s.gets := List.mem_filter.mpr ⟨hmem, by simp⟩
  have hone : s.gets.length ≤ 1 := by
    have hgets := h.gets
    split at hgets <;> omega
  obtain ⟨request, hgets⟩ := List.length_eq_one_iff.mp
    (le_antisymm hone (List.length_pos_of_mem hin))
  rw [hgets, List.mem_singleton] at hin
  simp [gets_settle, hgets, ha, ← hin]

theorem Guarded.act (h : s.Guarded) (ha : ∀ request ∈ a.answered, request ∈ s.inFlight)
    (hexpected : s.Expected a) :
    (act ratings type CanIncrementPeer (s.settle a) a).Guarded := by
  cases a with
  | increment peer date =>
    obtain ⟨list, hlist, hnodup⟩ :=
      @increment_keeps _ _ _ ratings CanIncrementPeer s peer date
    rw [settle_of_none rfl, TopPeers.act, hlist]
    exact ⟨h.gets, hnodup h.nodup⟩
  | remove peer =>
    rw [settle_of_none rfl]
    exact (guarded_remove_iff h peer).mpr hexpected
  | toggleDisabled disabled =>
    rw [settle_of_none rfl, TopPeers.act, toggleDisabled]
    refine Guarded.send ?_ (by simp)
    split
    · split
      · exact ⟨h.gets, by simp⟩
      · exact h
    · split
      · exact ⟨h.gets, h.nodup⟩
      · exact h
  | reload now =>
    rw [settle_of_none rfl, TopPeers.act, reload]
    split
    · exact h
    · exact h.request
  | request =>
    rw [settle_of_none rfl]
    exact h.request
  | applyLocal disabled list =>
    rw [settle_of_none rfl, TopPeers.act, applyLocal]
    split
    · exact h
    · exact ⟨h.gets, hexpected⟩
  | received id date now result =>
    exact guarded_received (gets_settle_received h rfl (ha _ rfl)) h.nodup hexpected
  | toggled id enabled done =>
    have hsettled := h.settle (a := .toggled id enabled done) fun id => by simp [Action.answered]
    rw [TopPeers.act, toggled]
    split
    · exact hsettled.request
    · exact hsettled
  | reset id peer =>
    exact h.settle (a := .reset id peer) fun id => by simp [Action.answered]

theorem guarded_of_reached
    (h : (system ratings type CanIncrementPeer).Reached Expected s) : s.Guarded := by
  refine h.invariant (fun s hs => ?_) ?_
  · subst hs
    exact ⟨rfl, List.nodup_nil⟩
  · rintro s a s' hs hexpected ⟨ha, rfl⟩
    exact hs.act ha hexpected

/-- **The list never stops refreshing**, where ratings are reset only while it is being requested:
the guard says that a request is in flight, without one the list is requested again after the time
limit, and no peer is in it twice. -/
theorem requestId_guards (h : (system ratings type CanIncrementPeer).Reached Expected s) :
    (s.requestId ≠ 0 ↔ ∃ id, (id, .GetTopPeers) ∈ s.inFlight) ∧
      (∀ now, (¬ ∃ id, (id, .GetTopPeers) ∈ s.inFlight) →
        s.lastReceived = 0 ∨ s.lastReceived + kRequestTimeLimit ≤ now →
        ∃ id, (id, .GetTopPeers) ∈ (s.reload now).inFlight) ∧
      (s.list.map TopPeer.peer).Nodup := by
  obtain ⟨hgets, hnodup⟩ := guarded_of_reached h
  have hguard : s.requestId ≠ 0 ↔ ∃ id, (id, .GetTopPeers) ∈ s.inFlight := by
    rw [← gets_ne_nil_iff, ← List.length_pos_iff, hgets]
    split <;> simp [*]
  refine ⟨hguard, fun now hnone htime => ?_, hnodup⟩
  have hzero : s.requestId = 0 := not_not.mp (hguard.not.mpr hnone)
  refine ⟨s.sent + 1, ?_⟩
  rw [reload, if_neg, request, if_neg (by simp [hzero])]
  · simp [TopPeers.send]
  · rintro (hid | ⟨hne, hlate⟩)
    · exact hid hzero
    · obtain hnever | hlimit := htime
      · exact hne hnever
      · omega

end

/-- Ratings that are whole numbers and do not decay. -/
def plainRatings : Ratings Int where
  zero := 0
  add := (· + ·)
  ge a b := decide (a ≥ b)
  RatingDelta _ _ := 1

/-- The list is requested, and a rating is reset before the answer. -/
theorem requestId_guards_reset :
    ∃ s : TopPeers Nat Int,
      (system plainRatings .Chat fun _ => true).Reached Expected s ∧
      (s.requestId ≠ 0 ↔ ∃ id, (id, .GetTopPeers) ∈ s.inFlight) ∧
      (∀ now, (¬ ∃ id, (id, .GetTopPeers) ∈ s.inFlight) →
        s.lastReceived = 0 ∨ s.lastReceived + kRequestTimeLimit ≤ now →
        ∃ id, (id, .GetTopPeers) ∈ (s.reload now).inFlight) ∧
      (s.list.map TopPeer.peer).Nodup := by
  have hreached : (system plainRatings .Chat fun _ => true).Reached Expected
      ((({} : TopPeers Nat Int).request).remove 1) := by
    have hrequest : (system plainRatings .Chat fun _ => true).Reached Expected
        ({} : TopPeers Nat Int).request :=
      .step (a := .request) (.init rfl) trivial ⟨by simp [Action.answered], rfl⟩
    have hexpected : ({} : TopPeers Nat Int).request.Expected (.remove 1) :=
      ⟨1, by simp [request, send]⟩
    exact .step (a := .remove 1) hrequest hexpected ⟨by simp [Action.answered], rfl⟩
  exact ⟨_, hreached, requestId_guards hreached⟩

/-- A rating is reset with no request for the list: after its answer the guard is still there, and
`reload` sends nothing at any time. -/
theorem not_requestId_guards : ∃ s : TopPeers Nat Int,
    (system plainRatings .Chat fun _ => true).Reached (fun _ _ => True) s ∧
      s.requestId ≠ 0 ∧ s.inFlight = [] ∧ ∀ now, (s.reload now).inFlight = [] := by
  have hremove : (system plainRatings .Chat fun _ => true).Reached (fun _ _ => True)
      (({} : TopPeers Nat Int).remove 1) :=
    .step (a := .remove 1) (.init rfl) trivial ⟨by simp [Action.answered], rfl⟩
  have hreset : (system plainRatings .Chat fun _ => true).Reached (fun _ _ => True)
      ((({} : TopPeers Nat Int).remove 1).settle (.reset 1 1)) :=
    .step (a := .reset 1 1) hremove trivial ⟨by simp [Action.answered, remove, send], rfl⟩
  refine ⟨_, hreset, by simp [settle, remove, send], ?_, fun now => ?_⟩
  · simp [settle, remove, send, Action.answered]
  · simp [reload, settle, remove, send, Action.answered]

end TopPeers

end Data

end MessengerClient
