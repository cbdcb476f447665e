import Mathlib.Data.List.Flatten

/-!
# MessengerClient.ChatFilters

`Data::ChatFilters::loadNextExceptions`: the chats that filters always include and whose folder
is not known yet are loaded with one request for several filters of the queue.

The queue is a deque of filter ids.  A chat is its input peer; whether its folder is known is a
fact about the chat that the caller has.
-/

namespace MessengerClient

namespace Data

/-- Exceptions are not loaded before the chats list has this size. -/
def kLoadExceptionsAfter : Nat := 100

def kLoadExceptionsPerRequest : Nat := 100

abbrev FilterId := Int

structure ChatFilter (Peer : Type) where
  id : FilterId
  always : List Peer

structure ChatFilters (Peer : Type) where
  list : List (ChatFilter Peer)
  exceptionsToLoad : List FilterId
  exceptionsLoadRequestId : Nat := 0

namespace ChatFilters

variable {Peer : Type} (folderKnown : Peer → Bool) (s : ChatFilters Peer)

/-- The chats of a filter whose folder is not known. -/
def unknown (id : FilterId) : List Peer :=
  match s.list.find? (·.id = id) with
  | none => []
  | some filter => filter.always.filter fun history => !folderKnown history

/-- The lambda, which has the peers so far and its own result: it adds to the former. -/
def collectExceptions (id : FilterId) (inputs : List Peer) : List Peer × List Peer :=
  let result := []
  match s.list.find? (·.id = id) with
  | none => (result, inputs)
  | some filter =>
      (result, filter.always.foldl (fun inputs history =>
        if folderKnown history then inputs else inputs ++ [history]) inputs)

/-- The loop over the queue: what is left of it, and the peers; `none` is a failed `Assert`. -/
def collect : List FilterId → List Peer → Option (List FilterId × List Peer)
  | [], inputs => some ([], inputs)
  | id :: rest, inputs =>
      let (exceptions, inputs) := s.collectExceptions folderKnown id inputs
      if inputs.length + exceptions.length > kLoadExceptionsPerRequest then
        if inputs.isEmpty then none else some (id :: rest, inputs)
      else
        collect rest (inputs ++ exceptions)

/-- What a call returns, the filters after it and the peers of the request that it sent. -/
structure Call (Peer : Type) where
  result : Bool
  filters : ChatFilters Peer
  request : Option (List Peer) := none

/-- `requestId` is the one that a request gets, and `fullSize` that of the chats list. -/
def loadNextExceptions (requestId fullSize : Nat) (chatsListLoaded : Bool) :
    Option (Call Peer) :=
  if s.exceptionsLoadRequestId ≠ 0 then
    some { result := true, filters := s }
  else if !chatsListLoaded && fullSize < kLoadExceptionsAfter then
    some { result := false, filters := s }
  else do
    let (exceptionsToLoad, inputs) ← s.collect folderKnown s.exceptionsToLoad []
    let filters := { s with exceptionsToLoad }
    if inputs.isEmpty then
      return { result := false, filters }
    else
      return {
        result := true
        filters := { filters with exceptionsLoadRequestId := requestId }
        request := some inputs }

/-! ## One call -/

variable {folderKnown s}

/-- The peers are added to the others, and the lambda's own result stays empty. -/
theorem collectExceptions_eq (id : FilterId) (inputs : List Peer) :
    s.collectExceptions folderKnown id inputs = ([], inputs ++ s.unknown folderKnown id) := by
  have hfold : ∀ (always inputs : List Peer), always.foldl (fun inputs history =>
      if folderKnown history then inputs else inputs ++ [history]) inputs =
        inputs ++ always.filter fun history => !folderKnown history := by
    intro always
    induction always with
    | nil => simp
    | cons history always ih =>
        intro inputs
        rw [List.foldl_cons, ih, List.filter_cons]
        cases folderKnown history with
        | true => simp
        | false => simp
  unfold collectExceptions unknown
  cases s.list.find? (·.id = id) with
  | none => simp
  | some filter => simp [hfold]

theorem collect_cons (id : FilterId) (rest : List FilterId) (inputs : List Peer) :
    s.collect folderKnown (id :: rest) inputs =
      if (inputs ++ s.unknown folderKnown id).length > kLoadExceptionsPerRequest then
        if (inputs ++ s.unknown folderKnown id).isEmpty then none
        else some (id :: rest, inputs ++ s.unknown folderKnown id)
      else s.collect folderKnown rest (inputs ++ s.unknown folderKnown id) := by
  rw [collect, collectExceptions_eq]
  simp only [List.length_nil, Nat.add_zero, List.append_nil]

/-- Where the chats of all filters fit, the queue is popped to its end. -/
theorem collect_of_fits {queue : List FilterId} (inputs : List Peer)
    (hfits : (inputs ++ queue.flatMap (s.unknown folderKnown)).length ≤
      kLoadExceptionsPerRequest) :
    s.collect folderKnown queue inputs =
      some ([], inputs ++ queue.flatMap (s.unknown folderKnown)) := by
  induction queue generalizing inputs with
  | nil => rw [collect, List.flatMap_nil, List.append_nil]
  | cons id rest ih =>
      rw [List.flatMap_cons, ← List.append_assoc] at hfits ⊢
      rw [collect_cons, if_neg, ih _ hfits]
      rw [List.length_append] at hfits
      omega

/-- Where they do not fit, the peers of the filter that is left in the queue are among those
that were collected, which are too many. -/
theorem collect_of_exceeds {queue : List FilterId} (inputs : List Peer)
    (hexceeds : kLoadExceptionsPerRequest <
      (inputs ++ queue.flatMap (s.unknown folderKnown)).length) :
    ∃ left peers, s.collect folderKnown queue inputs = some (left, peers) ∧
      kLoadExceptionsPerRequest < peers.length := by
  induction queue generalizing inputs with
  | nil =>
      rw [List.flatMap_nil, List.append_nil] at hexceeds
      exact ⟨[], inputs, rfl, hexceeds⟩
  | cons id rest ih =>
      rw [List.flatMap_cons, ← List.append_assoc] at hexceeds
      rw [collect_cons]
      split
      · next hmany =>
          have hsome : (inputs ++ s.unknown folderKnown id).isEmpty = false := by
            rw [List.isEmpty_eq_false_iff_exists_mem]
            exact List.exists_mem_of_length_pos (by omega)
          rw [hsome, if_neg Bool.false_ne_true]
          exact ⟨_, _, rfl, hmany⟩
      · exact ih _ hexceeds

/-! ## The request -/

/-- The request of a call has at most `kLoadExceptionsPerRequest` peers, which are the chats of
the filters that the call popped. -/
def LoadsBatch (folderKnown : Peer → Bool) (s : ChatFilters Peer) (call : Call Peer) : Prop :=
  ∀ peers, call.request = some peers →
    peers.length ≤ kLoadExceptionsPerRequest ∧
      ∃ popped, s.exceptionsToLoad = popped ++ call.filters.exceptionsToLoad ∧
        peers.Perm (popped.flatMap (s.unknown folderKnown))

/-- No request is under way, and the chats list is loaded far enough. -/
def Starts (s : ChatFilters Peer) (fullSize : Nat) (chatsListLoaded : Bool) : Prop :=
  s.exceptionsLoadRequestId = 0 ∧ (chatsListLoaded = true ∨ kLoadExceptionsAfter ≤ fullSize)

/-- **A call loads a proper batch exactly when the chats of all filters in the queue fit into
one request**; it never fails. -/
theorem loadsBatch_iff (folderKnown : Peer → Bool) (s : ChatFilters Peer)
    (requestId fullSize : Nat) (chatsListLoaded : Bool) :
    ∃ call, s.loadNextExceptions folderKnown requestId fullSize chatsListLoaded = some call ∧
      (LoadsBatch folderKnown s call ↔ (s.Starts fullSize chatsListLoaded →
        (s.exceptionsToLoad.flatMap (s.unknown folderKnown)).length ≤
          kLoadExceptionsPerRequest)) := by
  unfold loadNextExceptions
  split
  · next hid => exact ⟨_, rfl, fun _ hstarts => absurd hstarts.1 hid, fun _ _ => nofun⟩
  · next hid =>
      split
      · next hearly =>
          simp only [Bool.and_eq_true, Bool.not_eq_true', decide_eq_true_eq] at hearly
          refine ⟨_, rfl, fun _ hstarts => ?_, fun _ _ => nofun⟩
          rcases hstarts.2 with hloaded | hfull
          · exact absurd (hloaded.symm.trans hearly.1) (by decide)
          · omega
      · next hlate =>
          have hstarts : s.Starts fullSize chatsListLoaded := by
            refine ⟨Decidable.not_not.mp hid, ?_⟩
            simp only [Bool.and_eq_true, Bool.not_eq_true', decide_eq_true_eq, not_and] at hlate
            cases chatsListLoaded with
            | true => exact .inl rfl
            | false => exact .inr (Nat.not_lt.mp (hlate rfl))
          rcases Nat.lt_or_ge kLoadExceptionsPerRequest
            (s.exceptionsToLoad.flatMap (s.unknown folderKnown)).length with hexceeds | hfits
          · obtain ⟨left, peers, hcollect, hmany⟩ :=
              collect_of_exceeds (s := s) [] hexceeds
            have hsome : peers.isEmpty = false := by
              rw [List.isEmpty_eq_false_iff_exists_mem]
              exact List.exists_mem_of_length_pos (by omega)
            simp only [hcollect, hsome, Option.bind_eq_bind, Option.bind_some]
            refine ⟨_, rfl, fun hbatch => ?_, fun hfits => ?_⟩
            · exact absurd (hbatch peers rfl).1 (by omega)
            · exact absurd (hfits hstarts) (by omega)
          · have hcollect := collect_of_fits (s := s) [] hfits
            simp only [hcollect, List.nil_append, Option.bind_eq_bind, Option.bind_some]
            split
            · exact ⟨_, rfl, fun _ _ => hfits, fun _ _ => nofun⟩
            · refine ⟨_, rfl, fun _ _ => hfits, fun _ peers hpeers => ?_⟩
              obtain rfl := Option.some.inj hpeers
              exact ⟨hfits, s.exceptionsToLoad, (List.append_nil _).symm, .refl _⟩

/-- Two filters of sixty chats each. -/
def sixtyEach : ChatFilters Nat where
  list := [⟨1, List.range 60⟩, ⟨2, List.range' 60 60⟩]
  exceptionsToLoad := [1, 2]

theorem not_loadsBatch :
    (∀ filter ∈ sixtyEach.list, filter.always.length ≤ kLoadExceptionsPerRequest) ∧
    ∃ call, sixtyEach.loadNextExceptions (fun _ => false) 1 200 true = some call ∧
      call.filters.exceptionsToLoad = [2] ∧ call.request = some (List.range 120) ∧
      ¬ LoadsBatch (fun _ => false) sixtyEach call := by
  have hcall : (sixtyEach.loadNextExceptions (fun _ => false) 1 200 true).map (fun call =>
      (call.filters.exceptionsToLoad, call.request)) = some ([2], some (List.range 120)) := by
    decide +kernel
  obtain ⟨call, hcall, heq⟩ := Option.map_eq_some_iff.mp hcall
  obtain ⟨hleft, hrequest⟩ := Prod.mk.inj heq
  refine ⟨by decide +kernel, call, hcall, hleft, hrequest, fun hbatch => ?_⟩
  have hfew := (hbatch _ hrequest).1
  rw [List.length_range] at hfew
  exact absurd hfew (by decide)

end ChatFilters

end Data

end MessengerClient
