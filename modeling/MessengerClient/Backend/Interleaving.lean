import MessengerClient.Backend.Memberships
import MessengerClient.Lib.Coroutines

/-!
# MessengerClient.Backend.Interleaving

The endpoints that change memberships, each as the coroutine it is: it awaits every read
and its commit, and other requests go on in between.

A read sees the committed rows, and a commit is done at once or raises and changes nothing.
What a request reads after its commit only goes into its answer and is left out.
-/

namespace MessengerClient

namespace Backend

/-! ## The table of memberships -/

/-- A row, under the key that it was given. -/
structure Row extends Membership where
  id : Nat
deriving DecidableEq, Repr

/-- Whose row it is. -/
def Row.key (row : Row) : String × String := (row.chatId, row.userId)

/-- The committed rows. -/
structure Store where
  users : List User := []
  chats : List String := []
  memberships : List Row := []
  /-- The keys from here on are free. -/
  nextId : Nat := 0
deriving DecidableEq, Repr

/-- What a request has changed when it commits. -/
inductive Change where
  | createChat (chatId : String) (memberships : List Membership)
  | insert (membership : Membership)
  | delete (row : Row)
  | setRole (row : Row) (role : MemberRole)
deriving DecidableEq, Repr

/-- What an endpoint awaits. -/
inductive Op where
  | selectUser (id : String)
  | selectMembership (chatId userId : String)
  | flushChat (chatId : String)
  | commit (change : Change)
deriving DecidableEq, Repr

def Op.Answer : Op → Type
  | .selectUser _ => List User
  | .selectMembership _ _ => List Row
  | .flushChat _ => Except Failure Unit
  | .commit _ => Except Failure Unit

namespace Store

variable (s : Store)

def hasUser (id : String) : Bool := s.users.any (·.id == id)

/-- The rows of one user in one chat. -/
def rows (chatId userId : String) : List Row :=
  s.memberships.filter fun row => row.chatId = chatId && row.userId = userId

/-- New memberships, each under a key of its own. -/
def insertAll (new : List Membership) : Store :=
  { s with
    memberships := s.memberships ++ (new.zipIdx s.nextId).map fun (m, id) => { m with id }
    nextId := s.nextId + new.length }

/-- A commit: a chat id is a key, a membership names a user and a chat that are there, and
a row that is changed has to be there still. -/
def commit : Change → Except Failure Unit × Store
  | .createChat chatId new =>
      if chatId ∉ s.chats ∧ ∀ m ∈ new, s.hasUser m.userId then
        (.ok (), insertAll { s with chats := s.chats ++ [chatId] } new)
      else
        (.error .internal, s)
  | .insert m =>
      if s.hasUser m.userId ∧ m.chatId ∈ s.chats then
        (.ok (), s.insertAll [m])
      else
        (.error .internal, s)
  | .delete row =>
      (.ok (), { s with memberships := s.memberships.filter (·.id ≠ row.id) })
  | .setRole row role =>
      -- a role that is set to itself is no change
      if row.role = role then
        (.ok (), s)
      else if s.memberships.any (·.id == row.id) then
        (.ok (), { s with
          memberships := s.memberships.map fun r =>
            if r.id = row.id then { r with role := role } else r })
      else
        (.error .internal, s)

def perform : (op : Op) → Store → op.Answer × Store
  | .selectUser id, s => (s.users.filter (·.id = id), s)
  | .selectMembership chatId userId, s => (s.rows chatId userId, s)
  | .flushChat chatId, s => (if chatId ∈ s.chats then .error .internal else .ok (), s)
  | .commit change, s => s.commit change

end Store

/-! ## The endpoints -/

abbrev Endpoint := Coroutine Op Op.Answer Failure

namespace Endpoint

open Coroutine

def getCurrentUser (id : String) : Endpoint Unit := do
  let result ← execute (Op.selectUser id)
  match ← fromExcept (scalarOneOrNone result) with
  | none => raise (.http 401 "User not found or inactive")
  | some user =>
      if user.isActive then pure () else raise (.http 401 "User not found or inactive")

def findMembership (chatId userId : String) : Endpoint (Option Row) := do
  let result ← execute (Op.selectMembership chatId userId)
  fromExcept (scalarOneOrNone result)

def commit (change : Change) : Endpoint Unit := do
  let result ← execute (Op.commit change)
  fromExcept result

def addMember (currentUser chatId : String) (req : MemberRequest) : Endpoint Unit := do
  getCurrentUser currentUser
  match ← findMembership chatId currentUser with
  | none => raise (.http 403 "Insufficient permissions")
  | some caller =>
      if caller.role ≠ .admin ∧ caller.role ≠ .owner then
        raise (.http 403 "Insufficient permissions")
      else
        let existing ← findMembership chatId req.userId
        if existing.isSome then
          raise (.http 409 "Already a member")
        else
          let role ← fromExcept (required (MemberRole.parse req.role))
          commit (.insert { userId := req.userId, chatId := chatId, role := role })

def removeMember (currentUser chatId userId : String) : Endpoint Unit := do
  getCurrentUser currentUser
  match ← findMembership chatId currentUser with
  | none => raise (.http 403 "Insufficient permissions")
  | some caller =>
      if caller.role ≠ .admin ∧ caller.role ≠ .owner then
        raise (.http 403 "Insufficient permissions")
      else
        match ← findMembership chatId userId with
        | none => raise (.http 404 "Member not found")
        | some membership =>
            if membership.role = .owner then
              raise (.http 400 "Cannot remove owner")
            else
              commit (.delete membership)

def updateMemberRole (currentUser chatId userId role : String) : Endpoint Unit := do
  getCurrentUser currentUser
  match ← findMembership chatId currentUser with
  | none => raise (.http 403 "Only owner can change roles")
  | some caller =>
      if caller.role ≠ .owner then
        raise (.http 403 "Only owner can change roles")
      else
        match ← findMembership chatId userId with
        | none => raise (.http 404 "Member not found")
        | some membership =>
            let role ← fromExcept (required (MemberRole.parse role))
            commit (.setRole membership role)

/-- The memberships of a new chat: its owner, and each of the others that are named. -/
def newMemberships (currentUser : String) (memberIds : List String) (chatId : String) :
    List Membership :=
  { userId := currentUser, chatId := chatId, role := .owner }
    :: (memberIds.filter (· ≠ currentUser)).map fun mid => { userId := mid, chatId := chatId }

/-- `create_chat`; `chatId` is the id that the new chat gets. -/
def createChat (currentUser : String) (req : CreateChatRequest) (chatId : String) :
    Endpoint Unit := do
  getCurrentUser currentUser
  if req.chatType ∉ Database.chatTypes then
    raise .internal
  else
    let flushed ← execute (Op.flushChat chatId)
    fromExcept flushed
    commit (.createChat chatId (newMemberships currentUser req.memberIds chatId))

/-- The coroutine that answers a request. -/
def answer : Request → Endpoint Unit
  | .createChat currentUser req chatId => createChat currentUser req chatId
  | .addMember currentUser chatId req => addMember currentUser chatId req
  | .removeMember currentUser chatId userId => removeMember currentUser chatId userId
  | .updateMemberRole currentUser chatId userId role =>
      updateMemberRole currentUser chatId userId role

end Endpoint

namespace Store

/-! ## One membership for each user of a chat -/

/-- No two rows are of the same user in the same chat. -/
def Unique (s : Store) : Prop := (s.memberships.map Row.key).Nodup

instance (s : Store) : Decidable s.Unique := inferInstanceAs (Decidable (List.Nodup _))

/-- The commits that keep it so: a chat is made with each member named once, and a member
is added who has not been added since the request looked. -/
def Apart (s : Store) : Request → Op → Prop
  | .createChat currentUser req chatId, .commit _ =>
      chatId ∉ s.chats → (∀ m ∈ Endpoint.newMemberships currentUser req.memberIds chatId,
        s.hasUser m.userId) → (req.memberIds.filter (· ≠ currentUser)).Nodup
  | .addMember _ chatId req, .commit _ =>
      s.hasUser req.userId → chatId ∈ s.chats → s.rows chatId req.userId = []
  | _, _ => True

/-- What a request may commit. -/
def Commits : Request → Change → Prop
  | .createChat currentUser req chatId, change =>
      change = .createChat chatId (Endpoint.newMemberships currentUser req.memberIds chatId)
  | .addMember _ chatId req, change =>
      ∃ role, change = .insert { userId := req.userId, chatId := chatId, role := role }
  | .removeMember _ _ _, change => ∃ row, change = .delete row
  | .updateMemberRole _ _ _ _, change => ∃ row role, change = .setRole row role

/-- An operation that commits only what a condition allows. -/
def Commit (C : Change → Prop) (op : Op) : Prop := ∀ change, op = .commit change → C change

end Store

namespace Endpoint

open Coroutine Store

variable {C : Change → Prop}

end Endpoint

namespace Store

variable {s : Store} {chatId userId : String}

theorem mem_rows {row : Row} : row ∈ s.rows chatId userId ↔
    row ∈ s.memberships ∧ row.chatId = chatId ∧ row.userId = userId := by
  simp [rows]

theorem rows_eq_nil_iff :
    s.rows chatId userId = [] ↔ (chatId, userId) ∉ s.memberships.map Row.key := by
  simp [rows, List.filter_eq_nil_iff, Row.key]

/-- A check of one user in one chat returns. -/
theorem Unique.scalarOneOrNone (h : s.Unique) (chatId userId : String) :
    ∃ membership, scalarOneOrNone (s.rows chatId userId) = .ok membership := by
  have hrows : s.rows chatId userId =
      s.memberships.filter fun row => row.key = (chatId, userId) := by
    refine List.filter_congr fun row _ => ?_
    simp [Row.key]
  rw [hrows]
  rcases Keys.filter_cases h (chatId, userId) with ⟨-, hfilter⟩ | ⟨row, -, -, hfilter⟩
  · exact ⟨none, by rw [hfilter]; rfl⟩
  · exact ⟨some row, by rw [hfilter]; rfl⟩

/-! ## What a commit does to the keys -/

@[simp] theorem map_key_insertAll (new : List Membership) :
    (s.insertAll new).memberships.map Row.key =
      s.memberships.map Row.key ++ new.map fun m => (m.chatId, m.userId) := by
  have hnew := congrArg (List.map fun m : Membership => (m.chatId, m.userId))
    (List.zipIdx_map_fst s.nextId new)
  rw [List.map_map] at hnew
  simp only [insertAll, List.map_append, List.map_map]
  exact congrArg _ hnew

/-- Memberships are of chats. -/
def OfChats (s : Store) : Prop := ∀ row ∈ s.memberships, row.chatId ∈ s.chats

/-- The invariant: one membership for each user of a chat. -/
structure Sound (s : Store) : Prop where
  unique : s.Unique
  chats : s.OfChats

theorem OfChats.insertAll (h : s.OfChats) {new : List Membership}
    (hnew : ∀ m ∈ new, m.chatId ∈ s.chats) : (s.insertAll new).OfChats := by
  intro row hrow
  cases List.mem_append.mp hrow with
  | inl hold => exact h row hold
  | inr hadded =>
      obtain ⟨⟨m, id⟩, hm, rfl⟩ := List.mem_map.mp hadded
      exact hnew m (List.fst_mem_of_mem_zipIdx hm)

theorem chatId_newMemberships {currentUser : String} {memberIds : List String} {chatId : String}
    {m : Membership} (h : m ∈ Endpoint.newMemberships currentUser memberIds chatId) :
    m.chatId = chatId := by
  cases List.mem_cons.mp h with
  | inl howner => rw [howner]
  | inr hother =>
      obtain ⟨mid, -, rfl⟩ := List.mem_map.mp hother
      rfl

/-- The users of a new chat are distinct when those besides its owner are. -/
theorem nodup_newMemberships (currentUser : String) (memberIds : List String) (chatId : String) :
    ((Endpoint.newMemberships currentUser memberIds chatId).map fun m =>
      (m.chatId, m.userId)).Nodup ↔ (memberIds.filter (· ≠ currentUser)).Nodup := by
  rw [Endpoint.newMemberships, List.map_cons, List.nodup_cons, List.map_map]
  have hinj : Function.Injective fun mid : String => (chatId, mid) := fun _ _ h =>
    congrArg Prod.snd h
  constructor
  · intro h
    exact (List.nodup_map_iff hinj).mp h.2
  · intro h
    refine ⟨?_, (List.nodup_map_iff hinj).mpr h⟩
    simp

theorem unique_createChat_iff (h : s.Sound) (currentUser : String) (req : CreateChatRequest)
    (chatId : String) (change : Change) :
    (s.commit (.createChat chatId
        (Endpoint.newMemberships currentUser req.memberIds chatId))).2.Unique ↔
      s.Apart (.createChat currentUser req chatId) (.commit change) := by
  rw [commit]
  split
  · next hok =>
      have hfresh : ∀ k ∈ s.memberships.map Row.key,
          ∀ m ∈ Endpoint.newMemberships currentUser req.memberIds chatId,
            k ≠ (m.chatId, m.userId) := by
        intro k hk m hm heq
        obtain ⟨row, hrow, rfl⟩ := List.mem_map.mp hk
        have hchat := chatId_newMemberships hm
        have hrowChat : row.chatId = m.chatId := congrArg Prod.fst heq
        exact hok.1 (hchat ▸ hrowChat ▸ h.chats row hrow)
      rw [Unique, map_key_insertAll, List.nodup_append, nodup_newMemberships]
      constructor
      · intro hnodup _ _
        exact hnodup.2.1
      · intro hapart
        refine ⟨h.unique, hapart hok.1 hok.2, ?_⟩
        intro k hk k' hk'
        obtain ⟨m, hm, rfl⟩ := List.mem_map.mp hk'
        exact hfresh k hk m hm
  · next hraised =>
      exact iff_of_true h.unique fun hchat husers => absurd ⟨hchat, husers⟩ hraised

theorem unique_insert_iff (h : s.Sound) (currentUser chatId : String) (req : MemberRequest)
    (role : MemberRole) (change : Change) :
    (s.commit (.insert { userId := req.userId, chatId := chatId, role := role })).2.Unique ↔
      s.Apart (.addMember currentUser chatId req) (.commit change) := by
  rw [commit]
  split
  · next hok =>
      rw [Unique, map_key_insertAll, List.map_singleton, List.nodup_append]
      constructor
      · intro hnodup _ _
        rw [rows_eq_nil_iff]
        intro hmem
        exact hnodup.2.2 _ hmem _ (List.mem_singleton_self _) rfl
      · intro hapart
        refine ⟨h.unique, List.nodup_singleton _, ?_⟩
        intro k hk k' hk' heq
        rw [List.mem_singleton.mp hk'] at heq
        exact rows_eq_nil_iff.mp (hapart hok.1 hok.2) (heq ▸ hk)
  · next hraised =>
      exact iff_of_true h.unique fun huser hchat => absurd ⟨huser, hchat⟩ hraised

/-- Rows leave, and roles change: the keys that stay are as they were. -/
theorem Unique.delete (h : s.Unique) (row : Row) : (s.commit (.delete row)).2.Unique :=
  h.sublist (List.filter_sublist.map _)

theorem map_key_setRole (row : Row) (role : MemberRole) :
    (s.commit (.setRole row role)).2.memberships.map Row.key = s.memberships.map Row.key := by
  rw [commit]
  split
  · rfl
  · split
    · rw [List.map_map]
      refine List.map_congr_left fun r _ => ?_
      simp only [Function.comp_apply]
      split <;> rfl
    · rfl

theorem Unique.setRole (h : s.Unique) (row : Row) (role : MemberRole) :
    (s.commit (.setRole row role)).2.Unique :=
  (congrArg List.Nodup (map_key_setRole row role)).mpr h

/-- **One operation** keeps the memberships apart just when its commit may. -/
theorem unique_perform_iff (h : s.Sound) {req : Request} {op : Op}
    (hcommit : Commit (Commits req) op) : (perform op s).2.Unique ↔ s.Apart req op := by
  have hread {op : Op} (hop : ∀ change, op ≠ .commit change) : s.Apart req op := by
    cases op with
    | commit change => exact absurd rfl (hop change)
    | _ => cases req <;> trivial
  cases op with
  | selectUser id => exact iff_of_true h.unique (hread nofun)
  | selectMembership chatId userId => exact iff_of_true h.unique (hread nofun)
  | flushChat chatId => exact iff_of_true h.unique (hread nofun)
  | commit change =>
      have hchange := hcommit change rfl
      cases req with
      | createChat currentUser req chatId =>
          cases hchange
          exact unique_createChat_iff h currentUser req chatId _
      | addMember currentUser chatId req =>
          obtain ⟨role, rfl⟩ := hchange
          exact unique_insert_iff h currentUser chatId req role _
      | removeMember currentUser chatId userId =>
          obtain ⟨row, rfl⟩ := hchange
          exact iff_of_true (h.unique.delete row) trivial
      | updateMemberRole currentUser chatId userId role =>
          obtain ⟨row, role, rfl⟩ := hchange
          exact iff_of_true (h.unique.setRole row role) trivial

theorem OfChats.commit (h : s.OfChats) {req : Request} {change : Change}
    (hchange : Commits req change) : (s.commit change).2.OfChats := by
  cases req with
  | createChat currentUser req chatId =>
      cases hchange
      rw [Store.commit]
      split
      · have hadded : OfChats { s with chats := s.chats ++ [chatId] } := fun row hrow =>
          List.mem_append_left _ (h row hrow)
        refine hadded.insertAll fun m hm => ?_
        rw [chatId_newMemberships hm]
        exact List.mem_append_right _ (List.mem_singleton_self _)
      · exact h
  | addMember currentUser chatId req =>
      obtain ⟨role, rfl⟩ := hchange
      rw [Store.commit]
      split
      · next hok =>
          refine h.insertAll fun m hm => ?_
          rw [List.mem_singleton.mp hm]
          exact hok.2
      · exact h
  | removeMember currentUser chatId userId =>
      obtain ⟨row, rfl⟩ := hchange
      exact fun r hr => h r (List.mem_of_mem_filter hr)
  | updateMemberRole currentUser chatId userId role =>
      obtain ⟨row, role, rfl⟩ := hchange
      rw [Store.commit]
      split
      · exact h
      · split
        · intro r hr
          obtain ⟨was, hwas, rfl⟩ := List.mem_map.mp hr
          have hchat := h was hwas
          split <;> exact hchat
        · exact h

theorem Sound.perform (h : s.Sound) {req : Request} {op : Op}
    (hcommit : Commit (Commits req) op) (hapart : s.Apart req op) : (perform op s).2.Sound where
  unique := (unique_perform_iff h hcommit).mpr hapart
  chats := by
    cases op with
    | commit change => exact h.chats.commit (hcommit change rfl)
    | _ => exact h.chats

/-! ## Requests that are interleaved -/

/-- A database of users, without chats. -/
def Fresh (s : Store) : Prop := s.chats = [] ∧ s.memberships = []

end Store

/-- The database, and the requests that are being answered. -/
abbrev Server := Pool Store Request Op Op.Answer Failure Unit

/-- Any number of requests of any users, interleaved at their awaits. -/
def requests : System Server (Turn Request) :=
  Pool.interleaved Endpoint.answer Store.perform Store.Fresh

namespace Store

/-- Two users, and no chat yet. -/
def twoUsers : Server where
  shared := { users := [⟨"a", true⟩, ⟨"b", true⟩] }

end Store

end Backend

end MessengerClient
