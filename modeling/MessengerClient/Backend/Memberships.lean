import MessengerClient.Lib.Keys
import MessengerClient.Lib.Runs

/-!
# MessengerClient.Backend.Memberships

The memberships of chats, as the endpoints of `backend/app/api/members.py` and
`create_chat` change them.

A request that raises leaves the database as it was.  Titles, descriptions and the
marks of a membership are left out: no endpoint here looks at them.
-/

namespace MessengerClient

namespace Backend

/-! ## The tables -/

inductive MemberRole where
  | member
  | admin
  | owner
deriving DecidableEq, Repr

namespace MemberRole

def rank : MemberRole → Nat
  | member => 0
  | admin => 1
  | owner => 2

instance : LE MemberRole := ⟨fun a b => a.rank ≤ b.rank⟩

instance (a b : MemberRole) : Decidable (a ≤ b) := inferInstanceAs (Decidable (a.rank ≤ b.rank))

theorem le_owner (role : MemberRole) : role ≤ owner := by cases role <;> decide

/-- `MemberRole(role)`, which raises on anything else. -/
def parse (role : String) : Option MemberRole :=
  if role = "member" then some member
  else if role = "admin" then some admin
  else if role = "owner" then some owner
  else none

end MemberRole

structure User where
  id : String
  isActive : Bool := true
deriving DecidableEq, Repr

structure Membership where
  userId : String
  chatId : String
  role : MemberRole := .member
deriving DecidableEq, Repr

structure Database where
  users : List User := []
  chats : List String := []
  memberships : List Membership := []
deriving DecidableEq, Repr

/-- An answer with an error status, or an exception that nothing turns into one. -/
inductive Failure where
  | http (status : Nat) (detail : String)
  | internal
deriving DecidableEq, Repr

/-- More than one row raises. -/
def scalarOneOrNone {α : Type} : List α → Except Failure (Option α)
  | [] => .ok none
  | [a] => .ok (some a)
  | _ => .error .internal

/-- A value that raises when it is missing. -/
def required {α : Type} : Option α → Except Failure α
  | some a => .ok a
  | none => .error .internal

structure MemberRequest where
  userId : String
  role : String := "member"
deriving DecidableEq, Repr

structure CreateChatRequest where
  chatType : String := "group"
  memberIds : List String := []
deriving DecidableEq, Repr

namespace Database

variable (db : Database)

def hasUser (id : String) : Bool := db.users.any (·.id == id)

def isCurrentUser (id : String) : Bool := db.users.any fun u => u.id == id && u.isActive

def getCurrentUser (id : String) : Except Failure Unit :=
  if db.isCurrentUser id then .ok () else .error (.http 401 "User not found or inactive")

/-- The rows of one user in one chat. -/
def rows (chatId userId : String) : List Membership :=
  db.memberships.filter fun m => m.chatId = chatId && m.userId = userId

def findMembership (chatId userId : String) : Except Failure (Option Membership) :=
  scalarOneOrNone (db.rows chatId userId)

/-- A commit of new memberships: every user and chat they name has to be there. -/
def insertAll (new : List Membership) : Except Failure Database :=
  if new.all fun m => db.hasUser m.userId && db.chats.contains m.chatId then
    .ok { db with memberships := db.memberships ++ new }
  else
    .error .internal

/-- A commit that deletes a row. -/
def deleteRow (membership : Membership) : Database :=
  { db with memberships := db.memberships.filter (· ≠ membership) }

/-- A commit that changes the role in a row. -/
def setRole (membership : Membership) (role : MemberRole) : Database :=
  { db with
    memberships := db.memberships.map fun m =>
      if m = membership then { m with role := role } else m }

/-! ## The endpoints -/

def addMember (currentUser chatId : String) (req : MemberRequest) : Except Failure Database := do
  db.getCurrentUser currentUser
  match ← db.findMembership chatId currentUser with
  | none => .error (.http 403 "Insufficient permissions")
  | some caller =>
      if caller.role ≠ .admin ∧ caller.role ≠ .owner then
        .error (.http 403 "Insufficient permissions")
      else if (← db.findMembership chatId req.userId).isSome then
        .error (.http 409 "Already a member")
      else
        let role ← required (MemberRole.parse req.role)
        db.insertAll [{ userId := req.userId, chatId := chatId, role := role }]

def removeMember (currentUser chatId userId : String) : Except Failure Database := do
  db.getCurrentUser currentUser
  match ← db.findMembership chatId currentUser with
  | none => .error (.http 403 "Insufficient permissions")
  | some caller =>
      if caller.role ≠ .admin ∧ caller.role ≠ .owner then
        .error (.http 403 "Insufficient permissions")
      else
        match ← db.findMembership chatId userId with
        | none => .error (.http 404 "Member not found")
        | some membership =>
            if membership.role = .owner then
              .error (.http 400 "Cannot remove owner")
            else
              .ok (db.deleteRow membership)

def updateMemberRole (currentUser chatId userId role : String) : Except Failure Database := do
  db.getCurrentUser currentUser
  match ← db.findMembership chatId currentUser with
  | none => .error (.http 403 "Only owner can change roles")
  | some caller =>
      if caller.role ≠ .owner then
        .error (.http 403 "Only owner can change roles")
      else
        match ← db.findMembership chatId userId with
        | none => .error (.http 404 "Member not found")
        | some membership =>
            let role ← required (MemberRole.parse role)
            .ok (db.setRole membership role)

def chatTypes : List String := ["private", "group", "channel", "supergroup"]

/-- `create_chat`; `chatId` is the id that the new chat gets, a key of its table. -/
def createChat (currentUser : String) (req : CreateChatRequest) (chatId : String) :
    Except Failure Database := do
  db.getCurrentUser currentUser
  if req.chatType ∉ chatTypes ∨ chatId ∈ db.chats then
    .error .internal
  else
    insertAll { db with chats := db.chats ++ [chatId] }
      ({ userId := currentUser, chatId := chatId, role := .owner }
        :: (req.memberIds.filter (· ≠ currentUser)).map fun mid =>
          { userId := mid, chatId := chatId })

end Database

/-! ## Requests -/

inductive Request where
  | createChat (currentUser : String) (req : CreateChatRequest) (chatId : String)
  | addMember (currentUser chatId : String) (req : MemberRequest)
  | removeMember (currentUser chatId userId : String)
  | updateMemberRole (currentUser chatId userId role : String)
deriving DecidableEq, Repr

def Request.currentUser : Request → String
  | .createChat currentUser _ _ | .addMember currentUser _ _ | .removeMember currentUser _ _
  | .updateMemberRole currentUser _ _ _ => currentUser

namespace Database

def answer (db : Database) : Request → Except Failure Database
  | .createChat currentUser req chatId => db.createChat currentUser req chatId
  | .addMember currentUser chatId req => db.addMember currentUser chatId req
  | .removeMember currentUser chatId userId => db.removeMember currentUser chatId userId
  | .updateMemberRole currentUser chatId userId role =>
      db.updateMemberRole currentUser chatId userId role

/-- The database after a request. -/
def handle (db : Database) (req : Request) : Database :=
  match db.answer req with
  | .ok db' => db'
  | .error _ => db

/-- Requests to a database that starts with users alone. -/
def system : System Database Request where
  init db := db.chats = [] ∧ db.memberships = []
  step db req db' := db' = db.handle req

/-! ## Roles -/

def HasRole (db : Database) (chatId userId : String) (role : MemberRole) : Prop :=
  { userId := userId, chatId := chatId, role := role } ∈ db.memberships

instance (db : Database) (chatId userId : String) (role : MemberRole) :
    Decidable (db.HasRole chatId userId role) :=
  inferInstanceAs (Decidable (_ ∈ _))

/-- No user has a new role in a chat above that of the caller before the request. -/
def Contained (db db' : Database) (currentUser : String) : Prop :=
  ∀ chatId ∈ db.chats, ∀ userId role, db'.HasRole chatId userId role →
    ¬ db.HasRole chatId userId role →
    ∃ callerRole, db.HasRole chatId currentUser callerRole ∧ role ≤ callerRole

def Owned (db : Database) : Prop := ∀ chatId ∈ db.chats, ∃ userId, db.HasRole chatId userId .owner

/-- The one row of a user in a chat. -/
def IsOnly (db : Database) (chatId userId : String) (role : MemberRole) : Prop :=
  db.rows chatId userId = [{ userId := userId, chatId := chatId, role := role }]

/-- The requests that give no role above the caller's and leave each chat an owner: an
admin does not add an owner, and the only owner keeps the role. -/
def Fair (db : Database) : Request → Prop
  | .createChat _ _ _ | .removeMember _ _ _ => True
  | .addMember currentUser chatId req =>
      db.isCurrentUser currentUser → db.IsOnly chatId currentUser .admin → req.role = "owner" →
        db.hasUser req.userId → db.rows chatId req.userId ≠ []
  | .updateMemberRole currentUser chatId userId role =>
      db.isCurrentUser currentUser → db.IsOnly chatId currentUser .owner →
        db.IsOnly chatId userId .owner → role = "member" ∨ role = "admin" →
          ∃ other, other ≠ userId ∧ db.HasRole chatId other .owner

/-! ## What a request that is answered has passed -/

variable {db db' : Database} {currentUser chatId userId role : String}

theorem mem_rows {m : Membership} :
    m ∈ db.rows chatId userId ↔ m ∈ db.memberships ∧ m.chatId = chatId ∧ m.userId = userId := by
  simp [rows]

theorem findMembership_eq_none : db.findMembership chatId userId = .ok none
    ↔ db.rows chatId userId = [] := by
  unfold findMembership
  cases db.rows chatId userId with
  | nil => simp [scalarOneOrNone]
  | cons m ms => cases ms <;> simp [scalarOneOrNone]

theorem findMembership_eq_some {m : Membership} : db.findMembership chatId userId = .ok (some m)
    ↔ db.IsOnly chatId userId m.role
      ∧ m = { userId := userId, chatId := chatId, role := m.role } := by
  unfold findMembership IsOnly
  have hrows : ∀ m ∈ db.rows chatId userId, m.chatId = chatId ∧ m.userId = userId :=
    fun m hm => (mem_rows.mp hm).2
  cases h : db.rows chatId userId with
  | nil => simp [scalarOneOrNone]
  | cons m' ms =>
      cases ms with
      | nil =>
          obtain ⟨hchat, huser⟩ := hrows m' (by simp [h])
          obtain ⟨user, chat, role⟩ := m'
          obtain ⟨user', chat', role'⟩ := m
          simp only at hchat huser
          subst hchat huser
          simp [scalarOneOrNone]
          grind
      | cons m'' ms => simp [scalarOneOrNone]

theorem getCurrentUser_bind {α : Type} (f : Unit → Except Failure α) (a : α) :
    (db.getCurrentUser currentUser >>= f) = .ok a
      ↔ db.isCurrentUser currentUser ∧ f () = .ok a := by
  unfold getCurrentUser
  split
  · next h => simp [h, bind, Except.bind]
  · next h => simp [h, bind, Except.bind]

theorem findMembership_bind {α : Type} {f : Option Membership → Except Failure α} {a : α}
    (h : (db.findMembership chatId userId >>= f) = .ok a) :
    ∃ m, db.findMembership chatId userId = .ok m ∧ f m = .ok a := by
  cases hfind : db.findMembership chatId userId with
  | error e => rw [hfind] at h; cases h
  | ok m => rw [hfind] at h; exact ⟨m, rfl, h⟩

theorem required_bind {α β : Type} {o : Option α} {f : α → Except Failure β} {b : β}
    (h : (required o >>= f) = .ok b) : ∃ a, o = some a ∧ f a = .ok b := by
  cases o with
  | none => cases h
  | some a => exact ⟨a, rfl, h⟩

theorem insertAll_eq_ok_iff {new : List Membership} :
    db.insertAll new = .ok db' ↔ (∀ m ∈ new, db.hasUser m.userId ∧ m.chatId ∈ db.chats)
      ∧ db' = { db with memberships := db.memberships ++ new } := by
  have hall : (new.all fun m => db.hasUser m.userId && db.chats.contains m.chatId) = true
      ↔ ∀ m ∈ new, db.hasUser m.userId ∧ m.chatId ∈ db.chats := by
    simp
  unfold insertAll
  split
  · next h => exact ⟨fun heq => ⟨hall.mp h, (Except.ok.inj heq).symm⟩, fun heq => by rw [heq.2]⟩
  · next h => exact ⟨nofun, fun heq => absurd (hall.mpr heq.1) h⟩

theorem addMember_spec {req : MemberRequest} (h : db.addMember currentUser chatId req = .ok db') :
    db.isCurrentUser currentUser
      ∧ (∃ callerRole, callerRole ≠ .member ∧ db.IsOnly chatId currentUser callerRole)
      ∧ db.rows chatId req.userId = [] ∧ ∃ role, MemberRole.parse req.role = some role
        ∧ db.insertAll [{ userId := req.userId, chatId := chatId, role := role }] = .ok db' := by
  obtain ⟨huser, h⟩ := (getCurrentUser_bind _ _).mp h
  obtain ⟨caller, hcaller, h⟩ := findMembership_bind h
  cases caller with
  | none => cases h
  | some caller =>
      dsimp only at h
      split at h
      · cases h
      · next hrole =>
          obtain ⟨existing, hexisting, h⟩ := findMembership_bind h
          cases existing with
          | some m => cases h
          | none =>
              obtain ⟨role, hparse, h⟩ := required_bind h
              refine ⟨huser, ⟨caller.role, ?_, (findMembership_eq_some.mp hcaller).1⟩,
                findMembership_eq_none.mp hexisting, role, hparse, h⟩
              intro hmember
              simp [hmember] at hrole

theorem removeMember_spec (h : db.removeMember currentUser chatId userId = .ok db') :
    ∃ role, role ≠ .owner
      ∧ db' = db.deleteRow { userId := userId, chatId := chatId, role := role } := by
  obtain ⟨-, h⟩ := (getCurrentUser_bind _ _).mp h
  obtain ⟨caller, -, h⟩ := findMembership_bind h
  cases caller with
  | none => cases h
  | some caller =>
      dsimp only at h
      split at h
      · cases h
      · obtain ⟨membership, hfind, h⟩ := findMembership_bind h
        cases membership with
        | none => cases h
        | some membership =>
            dsimp only at h
            split at h
            · cases h
            · next hrole =>
                obtain ⟨-, hm⟩ := findMembership_eq_some.mp hfind
                cases h
                exact ⟨membership.role, hrole, by rw [← hm]⟩

theorem updateMemberRole_spec (h : db.updateMemberRole currentUser chatId userId role = .ok db') :
    db.isCurrentUser currentUser ∧ db.IsOnly chatId currentUser .owner
      ∧ ∃ was new, db.IsOnly chatId userId was ∧ MemberRole.parse role = some new
        ∧ db' = db.setRole { userId := userId, chatId := chatId, role := was } new := by
  obtain ⟨huser, h⟩ := (getCurrentUser_bind _ _).mp h
  obtain ⟨caller, hcaller, h⟩ := findMembership_bind h
  cases caller with
  | none => cases h
  | some caller =>
      dsimp only at h
      split at h
      · cases h
      · next hrole =>
          rw [not_not] at hrole
          obtain ⟨membership, hfind, h⟩ := findMembership_bind h
          cases membership with
          | none => cases h
          | some membership =>
              obtain ⟨new, hparse, h⟩ := required_bind h
              obtain ⟨honly, hm⟩ := findMembership_eq_some.mp hfind
              cases h
              exact ⟨huser, hrole ▸ (findMembership_eq_some.mp hcaller).1, membership.role, new,
                honly, hparse, by rw [← hm]⟩

theorem createChat_spec {req : CreateChatRequest}
    (h : db.createChat currentUser req chatId = .ok db') :
    chatId ∉ db.chats ∧ db'.chats = db.chats ++ [chatId]
      ∧ db'.HasRole chatId currentUser .owner
      ∧ (∀ m ∈ db.memberships, m ∈ db'.memberships)
      ∧ ∀ m ∈ db'.memberships, m ∈ db.memberships ∨ m.chatId = chatId := by
  obtain ⟨-, h⟩ := (getCurrentUser_bind _ _).mp h
  split at h
  · cases h
  · next hnew =>
      rw [not_or] at hnew
      obtain ⟨-, rfl⟩ := insertAll_eq_ok_iff.mp h
      refine ⟨hnew.2, rfl, by simp [HasRole], fun m hm => List.mem_append_left _ hm, ?_⟩
      intro m hm
      cases List.mem_append.mp hm with
      | inl hold => exact Or.inl hold
      | inr hnew =>
          refine Or.inr ?_
          cases List.mem_cons.mp hnew with
          | inl heq => rw [heq]
          | inr hmember =>
              obtain ⟨mid, -, rfl⟩ := List.mem_map.mp hmember
              rfl

/-! ## What each request keeps -/

theorem IsOnly.hasRole {role : MemberRole} (h : db.IsOnly chatId userId role) :
    db.HasRole chatId userId role := by
  have hmem : { userId := userId, chatId := chatId, role := role } ∈ db.rows chatId userId := by
    rw [h]
    exact List.mem_singleton_self _
  exact (mem_rows.mp hmem).1

/-- The role in the only row is the role. -/
theorem IsOnly.unique {role role' : MemberRole} (h : db.IsOnly chatId userId role)
    (h' : db.HasRole chatId userId role') : role' = role := by
  have hmem : { userId := userId, chatId := chatId, role := role' } ∈ db.rows chatId userId :=
    mem_rows.mpr ⟨h', rfl, rfl⟩
  rw [h, List.mem_singleton] at hmem
  exact congrArg Membership.role hmem

theorem hasRole_deleteRow {role was : MemberRole} {chatId' userId' : String} :
    (db.deleteRow { userId := userId, chatId := chatId, role := was }).HasRole chatId' userId' role
      ↔ db.HasRole chatId' userId' role
        ∧ ¬ (userId' = userId ∧ chatId' = chatId ∧ role = was) := by
  unfold HasRole deleteRow
  rw [List.mem_filter, decide_eq_true_eq, ne_eq, Membership.mk.injEq]

/-- A changed row has the new role, and every other row is as it was. -/
theorem hasRole_setRole {role was new : MemberRole} {chatId' userId' : String}
    (honly : db.IsOnly chatId userId was) :
    (db.setRole { userId := userId, chatId := chatId, role := was } new).HasRole
        chatId' userId' role
      ↔ if userId' = userId ∧ chatId' = chatId then role = new
        else db.HasRole chatId' userId' role := by
  unfold HasRole setRole
  rw [List.mem_map]
  split
  · next hsame =>
      obtain ⟨rfl, rfl⟩ := hsame
      constructor
      · rintro ⟨m, hm, heq⟩
        split at heq
        · next hrow =>
            subst hrow
            exact (congrArg Membership.role heq).symm
        · next hrow =>
            subst heq
            exact absurd (by rw [honly.unique hm]) hrow
      · rintro rfl
        exact ⟨_, honly.hasRole, by simp⟩
  · next hother =>
      constructor
      · rintro ⟨m, hm, heq⟩
        split at heq
        · next hrow =>
            subst hrow
            injection heq with huser hchat
            exact absurd ⟨huser.symm, hchat.symm⟩ hother
        · exact heq ▸ hm
      · intro hm
        refine ⟨_, hm, if_neg ?_⟩
        intro heq
        injection heq with huser hchat
        exact hother ⟨huser, hchat⟩

/-- The invariant: every chat has an owner, and memberships are of chats. -/
structure Good (db : Database) : Prop where
  owned : db.Owned
  chats : ∀ m ∈ db.memberships, m.chatId ∈ db.chats

theorem Contained.refl (db : Database) (currentUser : String) :
    db.Contained db currentUser := fun _ _ _ _ h hnot => absurd h hnot

theorem createChat_good {req : CreateChatRequest} (hgood : Good db)
    (h : db.createChat currentUser req chatId = .ok db') :
    Good db' ∧ db.Contained db' currentUser := by
  obtain ⟨hnew, hchats, howner, hold, hrows⟩ := createChat_spec h
  refine ⟨⟨?_, ?_⟩, ?_⟩
  · intro c hc
    rw [hchats, List.mem_append, List.mem_singleton] at hc
    cases hc with
    | inl hc =>
        obtain ⟨u, hu⟩ := hgood.owned c hc
        exact ⟨u, hold _ hu⟩
    | inr hc => exact ⟨currentUser, hc ▸ howner⟩
  · intro m hm
    rw [hchats, List.mem_append, List.mem_singleton]
    exact (hrows m hm).imp_left (hgood.chats m)
  · intro c hc u role hrole hnot
    cases hrows _ hrole with
    | inl hwas => exact absurd hwas hnot
    | inr hchat => exact absurd (hchat ▸ hc) hnew

theorem removeMember_good (hgood : Good db)
    (h : db.removeMember currentUser chatId userId = .ok db') :
    Good db' ∧ db.Contained db' currentUser := by
  obtain ⟨role, hrole, rfl⟩ := removeMember_spec h
  refine ⟨⟨?_, ?_⟩, ?_⟩
  · intro c hc
    obtain ⟨u, hu⟩ := hgood.owned c hc
    refine ⟨u, hasRole_deleteRow.mpr ⟨hu, ?_⟩⟩
    rintro ⟨-, -, howner⟩
    exact hrole howner.symm
  · exact fun m hm => hgood.chats m (List.mem_of_mem_filter hm)
  · intro c hc u role' hrole' hnot
    exact absurd (hasRole_deleteRow.mp hrole').1 hnot

theorem addMember_owned {req : MemberRequest} (hgood : Good db)
    (h : db.addMember currentUser chatId req = .ok db') : Good db' := by
  obtain ⟨-, -, -, role, -, hinsert⟩ := addMember_spec h
  obtain ⟨hnew, rfl⟩ := insertAll_eq_ok_iff.mp hinsert
  constructor
  · intro c hc
    obtain ⟨u, hu⟩ := hgood.owned c hc
    exact ⟨u, List.mem_append_left _ hu⟩
  · intro m hm
    cases List.mem_append.mp hm with
    | inl hold => exact hgood.chats m hold
    | inr hadded => exact (hnew m hadded).2

/-- A caller who may add members is an admin or an owner; an admin may not ask for an
owner. -/
theorem addMember_contained {req : MemberRequest}
    (h : db.addMember currentUser chatId req = .ok db')
    (hfair : db.Fair (.addMember currentUser chatId req)) : db.Contained db' currentUser := by
  obtain ⟨huser, ⟨callerRole, hmember, hcaller⟩, hnone, role, hparse, hinsert⟩ := addMember_spec h
  obtain ⟨hnew, rfl⟩ := insertAll_eq_ok_iff.mp hinsert
  intro c hc u r hr hnot
  cases List.mem_append.mp hr with
  | inl hold => exact absurd hold hnot
  | inr hadded =>
      rw [List.mem_singleton] at hadded
      injection hadded with hu hchat hrole
      subst hu hchat hrole
      refine ⟨callerRole, hcaller.hasRole, ?_⟩
      cases callerRole with
      | member => exact absurd rfl hmember
      | owner => exact r.le_owner
      | admin =>
          cases r with
          | member => decide
          | admin => decide
          | owner =>
              have howner : req.role = "owner" := by
                unfold MemberRole.parse at hparse
                split at hparse
                · cases hparse
                · split at hparse
                  · cases hparse
                  · split at hparse
                    · assumption
                    · cases hparse
              exact absurd hnone (hfair huser hcaller howner (hnew _ (List.mem_singleton_self _)).1)

theorem updateMemberRole_contained
    (h : db.updateMemberRole currentUser chatId userId role = .ok db') :
    db.Contained db' currentUser := by
  obtain ⟨-, hcaller, was, new, honly, -, rfl⟩ := updateMemberRole_spec h
  intro c hc u r hr hnot
  rw [hasRole_setRole honly] at hr
  split at hr
  · next hsame =>
      refine ⟨.owner, ?_, r.le_owner⟩
      rw [hsame.2]
      exact hcaller.hasRole
  · exact absurd hr hnot

theorem updateMemberRole_owned (hgood : Good db)
    (h : db.updateMemberRole currentUser chatId userId role = .ok db')
    (hfair : db.Fair (.updateMemberRole currentUser chatId userId role)) : Good db' := by
  obtain ⟨huser, hcaller, was, new, honly, hparse, rfl⟩ := updateMemberRole_spec h
  constructor
  · intro c hc
    obtain ⟨u, hu⟩ := hgood.owned c hc
    by_cases hsame : u = userId ∧ c = chatId
    · obtain ⟨rfl, rfl⟩ := hsame
      have howner : db.IsOnly c u .owner := by
        rw [honly.unique hu]
        exact honly
      by_cases hnew : new = .owner
      · refine ⟨u, (hasRole_setRole honly).mpr ?_⟩
        rw [if_pos ⟨rfl, rfl⟩, hnew]
      · -- the role is taken away, so another owner has to be there
        have hrole : role = "member" ∨ role = "admin" := by
          unfold MemberRole.parse at hparse
          split at hparse
          · next hmember => exact Or.inl hmember
          · split at hparse
            · next hadmin => exact Or.inr hadmin
            · split at hparse
              · exact absurd (Option.some.inj hparse).symm hnew
              · cases hparse
        obtain ⟨other, hne, hother⟩ := hfair huser hcaller howner hrole
        refine ⟨other, (hasRole_setRole honly).mpr ?_⟩
        rw [if_neg fun hsame => hne hsame.1]
        exact hother
    · refine ⟨u, (hasRole_setRole honly).mpr ?_⟩
      rw [if_neg hsame]
      exact hu
  · intro m hm
    obtain ⟨m', hm', rfl⟩ := List.mem_map.mp hm
    have hchat := hgood.chats m' hm'
    split <;> exact hchat

/-- **A fair request** gives no role above the caller's, and leaves each chat an owner. -/
theorem handle_fair {req : Request} (hgood : Good db) (hfair : db.Fair req) :
    Good (db.handle req) ∧ db.Contained (db.handle req) req.currentUser := by
  unfold handle
  cases h : db.answer req with
  | error e => exact ⟨hgood, .refl db _⟩
  | ok db' =>
      cases req with
      | createChat currentUser req chatId => exact createChat_good hgood h
      | addMember currentUser chatId req =>
          exact ⟨addMember_owned hgood h, addMember_contained h hfair⟩
      | removeMember currentUser chatId userId => exact removeMember_good hgood h
      | updateMemberRole currentUser chatId userId role =>
          exact ⟨updateMemberRole_owned hgood h hfair, updateMemberRole_contained h⟩

/-! ## What an unfair request does -/

/-- What a run of fair requests keeps. -/
theorem good_of_reached (h : system.Reached Fair db) : Good db := by
  refine h.invariant ?_ ?_
  · rintro db ⟨hchats, hmemberships⟩
    constructor
    · intro c hc
      rw [hchats] at hc
      cases hc
    · intro m hm
      rw [hmemberships] at hm
      cases hm
  · rintro db req db' hgood hfair rfl
    exact (handle_fair hgood hfair).1

end Database

end Backend

end MessengerClient
