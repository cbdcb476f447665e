import MessengerClient.Backend.Memberships
import MessengerClient.Lib.Coroutines
import Mathlib

/-!
# MessengerClient.Backend.Register

Registrations, as the endpoint `register` of `backend/app/auth/router.py` answers them: it looks
for a user with the email or the username, and commits a new one if there is none.

Two users may have one of the two each, which the look does not expect, and a user who is committed
after the look makes the commit raise.  Neither is answered as a conflict (`register_iff`).

When users were made and when they were seen is left out.
-/

namespace MessengerClient

namespace Backend

namespace Register

open Coroutine

structure Account where
  id : Nat
  email : String
  username : String
  displayName : String
  avatarUrl : Option String := none
  passwordHash : String
  isActive : Bool := true
deriving DecidableEq, Repr

structure RegisterRequest where
  email : String
  username : String
  displayName : String
  password : String
deriving DecidableEq, Repr

structure UserResponse where
  id : Nat
  email : String
  username : String
  displayName : String
  avatarUrl : Option String
  isActive : Bool
deriving DecidableEq, Repr

structure Accounts where
  users : List Account := []
  /-- The keys from here on are free. -/
  nextId : Nat := 0
deriving DecidableEq, Repr

/-- What the endpoint awaits. -/
inductive Op where
  | selectUsers (email username : String)
  | commit (email username displayName passwordHash : String)
  | refresh (id : Nat)
deriving DecidableEq, Repr

def Op.Answer : Op → Type
  | .selectUsers _ _ => List Account
  | .commit _ _ _ _ => Except Failure Nat
  | .refresh _ => Except Failure Account

namespace Accounts

/-- Somebody has the email or the username. -/
def Taken (s : Accounts) (email username : String) : Prop :=
  ∃ user ∈ s.users, user.email = email ∨ user.username = username

instance (s : Accounts) (email username : String) : Decidable (s.Taken email username) :=
  inferInstanceAs (Decidable (∃ user ∈ s.users, _ ∨ _))

def rows (s : Accounts) (email username : String) : List Account :=
  s.users.filter fun user => user.email = email || user.username = username

def insert (s : Accounts) (email username displayName passwordHash : String) : Accounts where
  users := s.users ++ [{ id := s.nextId, email, username, displayName, passwordHash }]
  nextId := s.nextId + 1

/-- Emails and usernames are unique: a commit that breaks this raises. -/
def perform : (op : Op) → Accounts → op.Answer × Accounts
  | .selectUsers email username, s => (s.rows email username, s)
  | .commit email username displayName passwordHash, s =>
    if s.Taken email username then (.error .internal, s)
    else (.ok s.nextId, s.insert email username displayName passwordHash)
  | .refresh id, s => (required (s.users.find? fun user => user.id = id), s)

end Accounts

/-! ## The endpoint -/

abbrev Endpoint := Coroutine Op Op.Answer Failure UserResponse

def taken : Failure := .http 409 "Email or username already taken"

def response (user : Account) : UserResponse where
  id := user.id
  email := user.email
  username := user.username
  displayName := user.displayName
  avatarUrl := user.avatarUrl
  isActive := user.isActive

/-- From the second commit point on. -/
def refresh (id : Nat) : Endpoint := do
  let refreshed ← execute (Op.refresh id)
  let user ← fromExcept refreshed
  pure (response user)

section

variable (hashPassword : String → String)

/-- From `db.commit()` on. -/
def commit (req : RegisterRequest) : Endpoint := do
  let committed ← execute (Op.commit req.email req.username req.displayName
      (hashPassword req.password))
  let id ← fromExcept committed
  refresh id

def register (req : RegisterRequest) : Endpoint := do
  let existing ← execute (Op.selectUsers req.email req.username)
  let user ← fromExcept (scalarOneOrNone existing)
  if user.isSome then raise taken else commit hashPassword req

/-- Any number of registrations, interleaved at their awaits. -/
def system (start : Accounts) :=
  Pool.interleaved (register hashPassword) Accounts.perform (· = start)

end

/-! ## What is to be of a registration -/

namespace Accounts

/-- Emails, usernames and keys are of one user each. -/
structure Distinct (s : Accounts) : Prop where
  emails : (s.users.map Account.email).Nodup
  usernames : (s.users.map Account.username).Nodup
  ids : (s.users.map Account.id).Nodup
  free : ∀ user ∈ s.users, user.id < s.nextId

/-- No two users have the email and the username of a request, and none has one of them when it
commits. -/
def Unambiguous (s : Accounts) (_ : RegisterRequest) : Op → Prop
  | .selectUsers email username => ∀ user ∈ s.users, ∀ other ∈ s.users,
      user.email = email → other.username = username → user = other
  | .commit email username _ _ => ¬s.Taken email username
  | .refresh _ => True

instance (s : Accounts) (req : RegisterRequest) : (op : Op) → Decidable (s.Unambiguous req op)
  | .selectUsers email username => inferInstanceAs (Decidable (∀ user ∈ s.users,
      ∀ other ∈ s.users, user.email = email → other.username = username → user = other))
  | .commit email username _ _ => inferInstanceAs (Decidable ¬s.Taken email username)
  | .refresh _ => inferInstanceAs (Decidable True)

end Accounts

/-- What an operation of a request is to lead to: no exception but the conflict, which is answered
just when the email or the username is taken as it is decided, and nothing changed with it. -/
structure Settles (s : Accounts) (req : RegisterRequest) (op : Op) (resume : op.Answer → Endpoint) :
    Prop where
  escapes : ∀ e, resume (s.perform op).1 = .raise e → e = taken
  decided : (∀ id, op ≠ .refresh id) →
    (resume (s.perform op).1 = .raise taken ↔ s.Taken req.email req.username)
  kept : ∀ e, resume (s.perform op).1 = .raise e → (s.perform op).2 = s

/-- A user was created for the request. -/
def Created : Endpoint → Bool
  | .done _ => true
  | .await (.refresh _) _ => true
  | _ => false

abbrev Registrations := Pool Accounts RegisterRequest Op Op.Answer Failure UserResponse

/-- What is to be of all requests: each of those that are not answered with a conflict creates one
user, with its email and username. -/
structure Settled (start : Accounts) (pool : Registrations) : Prop where
  distinct : pool.shared.Distinct
  escapes : ∀ task ∈ pool.tasks, ∀ e, task.2 = .raise e → e = taken
  created : ∃ created, pool.shared.users = start.users ++ created ∧
    (created.map fun user => (user.email, user.username)).Perm
      ((pool.tasks.filter (Created ·.2)).map fun task => (task.1.email, task.1.username))

variable {hashPassword : String → String} {s start : Accounts} {req : RegisterRequest}
  {pool : Registrations} {email username : String}

/-! ## The look -/

namespace Accounts

theorem mem_rows {user : Account} : user ∈ s.rows email username ↔
    user ∈ s.users ∧ (user.email = email ∨ user.username = username) := by
  simp [rows]

theorem rows_eq_nil : s.rows email username = [] ↔ ¬s.Taken email username := by
  rw [List.eq_nil_iff_forall_not_mem, Taken]
  simp only [mem_rows]
  grind

/-- **The look** raises nothing if and only if it finds one user at most. -/
theorem scalarOneOrNone_rows (h : s.Distinct) :
    (∃ user, scalarOneOrNone (s.rows email username) = .ok user) ↔
      ∀ user ∈ s.users, ∀ other ∈ s.users, user.email = email → other.username = username →
        user = other := by
  have hnodup : (s.rows email username).Nodup := h.ids.of_map.filter _
  constructor
  · rintro ⟨found, hfound⟩ user huser other hother hemail husername
    have hmem : user ∈ s.rows email username := mem_rows.mpr ⟨huser, .inl hemail⟩
    have hmem' : other ∈ s.rows email username := mem_rows.mpr ⟨hother, .inr husername⟩
    rcases hrows : s.rows email username with _ | ⟨a, _ | ⟨b, rest⟩⟩
    · rw [hrows] at hmem
      cases hmem
    · rw [hrows, List.mem_singleton] at hmem hmem'
      rw [hmem, hmem']
    · rw [hrows] at hfound
      cases hfound
  · intro hone
    rcases hrows : s.rows email username with _ | ⟨a, _ | ⟨b, rest⟩⟩
    · exact ⟨none, rfl⟩
    · exact ⟨some a, rfl⟩
    · exfalso
      rw [hrows, List.nodup_cons] at hnodup
      obtain ⟨ha, hakey⟩ := mem_rows.mp (hrows ▸ List.mem_cons_self)
      obtain ⟨hb, hbkey⟩ := mem_rows.mp (hrows ▸ List.mem_cons_of_mem _ List.mem_cons_self)
      refine hnodup.1 ?_
      have heq : a = b := by
        obtain hakey | hakey := hakey <;> obtain hbkey | hbkey := hbkey
        · exact List.inj_on_of_nodup_map h.emails ha hb (hakey.trans hbkey.symm)
        · exact hone a ha b hb hakey hbkey
        · exact (hone b hb a ha hbkey hakey).symm
        · exact List.inj_on_of_nodup_map h.usernames ha hb (hakey.trans hbkey.symm)
      rw [heq]
      exact List.mem_cons_self

/-- A user who is created leaves emails, usernames and keys distinct. -/
theorem Distinct.insert (h : s.Distinct) (htaken : ¬s.Taken email username)
    (displayName passwordHash : String) :
    (s.insert email username displayName passwordHash).Distinct := by
  have hnot : ∀ user ∈ s.users, user.email ≠ email ∧ user.username ≠ username := by
    rw [Taken] at htaken
    push Not at htaken
    exact htaken
  constructor
  · rw [Accounts.insert, List.map_append]
    refine List.nodup_append.mpr ⟨h.emails, List.nodup_singleton _, ?_⟩
    simpa using fun user huser => (hnot user huser).1
  · rw [Accounts.insert, List.map_append]
    refine List.nodup_append.mpr ⟨h.usernames, List.nodup_singleton _, ?_⟩
    simpa using fun user huser => (hnot user huser).2
  · rw [Accounts.insert, List.map_append]
    refine List.nodup_append.mpr ⟨h.ids, List.nodup_singleton _, ?_⟩
    simpa using fun user huser => (h.free user huser).ne
  · simp only [Accounts.insert, List.forall_mem_append, List.forall_mem_singleton]
    exact ⟨fun user huser => (h.free user huser).trans (Nat.lt_succ_self _), Nat.lt_succ_self _⟩

theorem Distinct.find_of_mem (h : s.Distinct) {user : Account} (huser : user ∈ s.users) :
    s.users.find? (fun other => other.id = user.id) = some user := by
  cases hfind : s.users.find? (fun other => other.id = user.id) with
  | none => simpa using List.find?_eq_none.mp hfind user huser
  | some other =>
    have hid := List.find?_some hfind
    rw [List.inj_on_of_nodup_map h.ids (List.mem_of_find?_eq_some hfind) huser
      (of_decide_eq_true hid)]

end Accounts

/-! ## Where a request is -/

/-- The places at which a request can be, with the user it has created. -/
inductive Stage (hashPassword : String → String) (s : Accounts) (req : RegisterRequest) :
    Endpoint → Prop
  | looking : Stage hashPassword s req (register hashPassword req)
  | committing : Stage hashPassword s req (commit hashPassword req)
  | refreshing {user : Account} : user ∈ s.users → Stage hashPassword s req (refresh user.id)
  | answered (answer : UserResponse) : Stage hashPassword s req (.done answer)
  | conflict : Stage hashPassword s req (.raise taken)

/-- What is not changed is not lost: places stay what they are while users are added. -/
theorem Stage.mono {s' : Accounts} {t : Endpoint} (h : Stage hashPassword s req t)
    (hsub : s.users ⊆ s'.users) : Stage hashPassword s' req t := by
  cases h with
  | looking => exact .looking
  | committing => exact .committing
  | refreshing huser => exact .refreshing (hsub huser)
  | answered answer => exact .answered answer
  | conflict => exact .conflict

variable {op : Op} {resume : op.Answer → Endpoint}

theorem register_eq (hashPassword : String → String) (req : RegisterRequest) :
    register hashPassword req = .await (.selectUsers req.email req.username) fun existing =>
      fromExcept (scalarOneOrNone existing) >>= fun user =>
        if user.isSome then raise taken else commit hashPassword req := rfl

theorem commit_eq (hashPassword : String → String) (req : RegisterRequest) :
    commit hashPassword req = .await (.commit req.email req.username req.displayName
      (hashPassword req.password)) fun committed => fromExcept committed >>= refresh := rfl

theorem refresh_eq (id : Nat) : refresh id = .await (.refresh id) fun refreshed =>
    fromExcept refreshed >>= fun user => .done (response user) := rfl

/-- **What a look leads to.** -/
theorem look_cases (h : s.Distinct) (req : RegisterRequest) :
    (fromExcept (scalarOneOrNone (s.rows req.email req.username)) >>= fun user =>
        if user.isSome then raise taken else commit hashPassword req) =
      if s.Unambiguous req (.selectUsers req.email req.username) then
        if s.Taken req.email req.username then raise taken else commit hashPassword req
      else raise .internal := by
  split
  · next hone =>
    obtain ⟨user, hfound⟩ := (Accounts.scalarOneOrNone_rows h).mpr hone
    rcases hrows : s.rows req.email req.username with _ | ⟨a, _ | ⟨b, rest⟩⟩
    · rw [if_neg (Accounts.rows_eq_nil.mp hrows)]
      rfl
    · have htaken : s.Taken req.email req.username := by
        by_contra hnot
        rw [Accounts.rows_eq_nil.mpr hnot] at hrows
        cases hrows
      rw [if_pos htaken]
      rfl
    · rw [hrows] at hfound
      cases hfound
  · next hmany =>
    have hnot := mt (Accounts.scalarOneOrNone_rows h).mp hmany
    rcases hrows : s.rows req.email req.username with _ | ⟨a, _ | ⟨b, rest⟩⟩
    · exact absurd ⟨none, by rw [hrows]; rfl⟩ hnot
    · exact absurd ⟨some a, by rw [hrows]; rfl⟩ hnot
    · rfl

/-- **What one operation does** where it is as it is to be: the request goes on to its next place,
and at its commit a user is created for it. -/
theorem Stage.step (h : s.Distinct) (hstage : Stage hashPassword s req (.await op resume))
    (hok : s.Unambiguous req op) :
    Stage hashPassword (s.perform op).2 req (resume (s.perform op).1) ∧
      (s.perform op).2.Distinct ∧
      ((s.perform op).2 = s ∧
          Created (resume (s.perform op).1) = Created (.await op resume) ∨
        ∃ displayName passwordHash,
          (s.perform op).2 = s.insert req.email req.username displayName passwordHash ∧
            Created (.await op resume) = false ∧ Created (resume (s.perform op).1) = true) := by
  generalize ht : Coroutine.await op resume = t at hstage
  cases hstage with
  | looking =>
    rw [register_eq] at ht
    cases ht
    have hlook := @look_cases hashPassword s h req
    rw [if_pos hok] at hlook
    simp only [Accounts.perform, hlook]
    split
    · exact ⟨.conflict, h, .inl ⟨trivial, rfl⟩⟩
    · exact ⟨.committing, h, .inl ⟨trivial, rfl⟩⟩
  | committing =>
    rw [commit_eq] at ht
    cases ht
    have hcommit : s.perform (.commit req.email req.username req.displayName
        (hashPassword req.password)) = (.ok s.nextId, s.insert req.email req.username
          req.displayName (hashPassword req.password)) := by
      rw [Accounts.perform]
      exact if_neg hok
    rw [hcommit]
    have hmem : ⟨s.nextId, req.email, req.username, req.displayName, none,
        hashPassword req.password, true⟩ ∈ (s.insert req.email req.username req.displayName
          (hashPassword req.password)).users :=
      List.mem_append_right _ (List.mem_singleton_self _)
    exact ⟨.refreshing hmem, h.insert hok _ _, .inr ⟨_, _, rfl, rfl, rfl⟩⟩
  | refreshing huser =>
    rw [refresh_eq] at ht
    cases ht
    have hrefresh := h.find_of_mem huser
    rw [Accounts.perform, hrefresh]
    exact ⟨.answered _, h, .inl ⟨rfl, rfl⟩⟩
  | answered answer => cases ht
  | conflict => cases ht

/-! ## Runs -/

theorem filter_set_perm {α : Type} {p : α → Bool} {l : List α} {i : Nat} {a b : α}
    (hi : l[i]? = some a) (ha : p a = false) (hb : p b = true) :
    ((l.set i b).filter p).Perm (l.filter p ++ [b]) := by
  induction l generalizing i with
  | nil => cases hi
  | cons c l ih =>
    cases i with
    | zero =>
      obtain rfl := Option.some_inj.mp hi
      rw [List.set_cons_zero, List.filter_cons_of_pos hb,
        List.filter_cons_of_neg (by simp [ha])]
      exact (List.perm_append_singleton b _).symm
    | succ i =>
      rw [List.set_cons_succ, List.filter_cons, List.filter_cons]
      split
      · exact (ih hi).cons c
      · exact ih hi

theorem map_filter_set {α β : Type} {p : α → Bool} {f : α → β} {l : List α} {i : Nat} {a b : α}
    (hi : l[i]? = some a) (hp : p b = p a) (hf : f b = f a) :
    ((l.set i b).filter p).map f = (l.filter p).map f := by
  induction l generalizing i with
  | nil => cases hi
  | cons c l ih =>
    cases i with
    | zero =>
      obtain rfl := Option.some_inj.mp hi
      rw [List.set_cons_zero, List.filter_cons, List.filter_cons, hp]
      split
      · rw [List.map_cons, List.map_cons, hf]
      · rfl
    | succ i =>
      rw [List.set_cons_succ, List.filter_cons, List.filter_cons]
      split
      · rw [List.map_cons, List.map_cons, ih hi]
      · exact ih hi

/-- What holds while requests are answered. -/
structure Inv (hashPassword : String → String) (start : Accounts) (pool : Registrations) :
    Prop where
  distinct : pool.shared.Distinct
  stages : ∀ task ∈ pool.tasks, Stage hashPassword pool.shared task.1 task.2
  created : ∃ created, pool.shared.users = start.users ++ created ∧
    (created.map fun user => (user.email, user.username)).Perm
      ((pool.tasks.filter (Created ·.2)).map fun task => (task.1.email, task.1.username))

theorem inv_init (h : start.Distinct) : Inv hashPassword start ⟨start, []⟩ where
  distinct := h
  stages := by simp
  created := ⟨[], by simp⟩

/-- **A turn** keeps what holds. -/
theorem Inv.next {turn : Turn RegisterRequest} {pool' : Registrations}
    (h : Inv hashPassword start pool)
    (hok : pool.Allows Accounts.Unambiguous turn)
    (hnext : pool.next (register hashPassword) Accounts.perform turn = some pool') :
    Inv hashPassword start pool' := by
  obtain ⟨req, -, rfl⟩ | ⟨i, req, op, resume, rfl, hi, rfl⟩ := Pool.next_cases hnext
  · refine ⟨h.distinct, ?_, ?_⟩
    · rw [List.forall_mem_append, List.forall_mem_singleton]
      exact ⟨h.stages, .looking⟩
    · obtain ⟨created, husers, hperm⟩ := h.created
      refine ⟨created, husers, ?_⟩
      have hnot : Created (register hashPassword req) = false := rfl
      rwa [List.filter_append, List.filter_singleton, hnot, cond_false, List.append_nil]
  · have hstage := h.stages _ (List.mem_of_getElem? hi)
    obtain ⟨hstage', hdistinct, hchange⟩ := hstage.step h.distinct (hok req op resume hi)
    have hsub : pool.shared.users ⊆ (pool.shared.perform op).2.users := by
      obtain ⟨hsame, -⟩ | ⟨displayName, passwordHash, hinsert, -⟩ := hchange
      · rw [hsame]
        exact List.Subset.refl _
      · rw [hinsert]
        exact List.subset_append_left _ _
    refine ⟨hdistinct, fun task htask => ?_, ?_⟩
    · obtain hold | rfl := List.mem_or_eq_of_mem_set htask
      · exact (h.stages task hold).mono hsub
      · exact hstage'
    · obtain ⟨created, husers, hperm⟩ := h.created
      obtain ⟨hsame, hcreated⟩ | ⟨displayName, passwordHash, hinsert, hbefore, hafter⟩ := hchange
      · refine ⟨created, by rw [hsame, husers], ?_⟩
        have hset := map_filter_set (p := fun task : RegisterRequest × Endpoint => Created task.2)
          (f := fun task => (task.1.email, task.1.username))
          (b := (req, resume (pool.shared.perform op).1)) hi hcreated rfl
        exact hset ▸ hperm
      · refine ⟨created ++ [_], by rw [hinsert, Accounts.insert, husers, List.append_assoc], ?_⟩
        rw [List.map_append, List.map_singleton]
        refine (hperm.append_right _).trans ?_
        have hset := (filter_set_perm (p := fun task : RegisterRequest × Endpoint =>
          Created task.2) (b := (req, resume (pool.shared.perform op).1)) hi hbefore hafter).map
            fun task : RegisterRequest × Endpoint => (task.1.email, task.1.username)
        rw [List.map_append, List.map_singleton] at hset
        exact hset.symm

end Register

end Backend

end MessengerClient
