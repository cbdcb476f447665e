import MessengerClient.Backend.Interleaving

/-!
# MessengerClient.Backend.Sequential

Requests that do not overlap: an endpoint that is left alone from its first await to its
last answers as the function of `MessengerClient.Backend.Memberships` does, so the runs of
that model are runs of the interleaved one.
-/

namespace MessengerClient

namespace Backend

namespace Store

/-- The rows without their keys. -/
def toDatabase (s : Store) : Database where
  users := s.users
  chats := s.chats
  memberships := s.memberships.map Row.toMembership

/-- Users and rows have keys. -/
structure Keyed (s : Store) : Prop where
  users : (s.users.map User.id).Nodup
  rows : (s.memberships.map Row.id).Nodup
  free : ∀ row ∈ s.memberships, row.id < s.nextId

/-- The answer of a coroutine, and the rows it leaves. -/
def outcome (result : Except Failure Unit × Store) : Except Failure Unit × Database :=
  (result.1, result.2.toDatabase)

/-- The same of a function, which leaves the rows as they were where it raises. -/
def settle (db : Database) : Except Failure Database → Except Failure Unit × Database
  | .ok db' => (.ok (), db')
  | .error e => (.error e, db)

variable {s : Store}

theorem rows_toDatabase (s : Store) (chatId userId : String) :
    s.toDatabase.rows chatId userId = (s.rows chatId userId).map Row.toMembership := by
  simp [Database.rows, rows, toDatabase, List.filter_map, Function.comp_def]

theorem scalarOneOrNone_map {α β : Type} (f : α → β) (l : List α) :
    scalarOneOrNone (l.map f) = (scalarOneOrNone l).map (Option.map f) := by
  rcases l with _ | ⟨a, _ | ⟨b, l⟩⟩ <;> rfl

theorem run_findMembership (s : Store) (chatId userId : String) :
    (Endpoint.findMembership chatId userId).run perform s =
      (scalarOneOrNone (s.rows chatId userId), s) := by
  simp [Endpoint.findMembership, Coroutine.run_bind, perform]

theorem findMembership_toDatabase (s : Store) (chatId userId : String) :
    s.toDatabase.findMembership chatId userId =
      (scalarOneOrNone (s.rows chatId userId)).map (Option.map Row.toMembership) := by
  rw [Database.findMembership, rows_toDatabase, scalarOneOrNone_map]

theorem isCurrentUser_toDatabase (s : Store) (id : String) :
    s.toDatabase.isCurrentUser id = (s.users.filter (·.id = id)).any User.isActive := by
  rw [List.any_filter]
  rfl

theorem run_getCurrentUser (h : s.Keyed) (id : String) :
    (Endpoint.getCurrentUser id).run perform s = (s.toDatabase.getCurrentUser id, s) := by
  rw [Database.getCurrentUser, isCurrentUser_toDatabase]
  simp only [Endpoint.getCurrentUser, Coroutine.run_bind, Coroutine.run_execute, perform,
    Coroutine.run_fromExcept]
  rcases Keys.filter_cases h.users id with ⟨-, hnone⟩ | ⟨user, -, -, hone⟩
  · simp [hnone, scalarOneOrNone]
  · cases hactive : user.isActive <;> simp [hone, scalarOneOrNone, hactive]

theorem run_commit (s : Store) (change : Change) :
    (Endpoint.commit change).run perform s = s.commit change := by
  simp only [Endpoint.commit, Coroutine.run_bind, Coroutine.run_execute, perform,
    Coroutine.run_fromExcept]

/-! ## The commits -/

theorem toDatabase_insertAll (s : Store) (new : List Membership) :
    (s.insertAll new).toDatabase = { s.toDatabase with
      memberships := s.toDatabase.memberships ++ new } := by
  simp [insertAll, toDatabase, Function.comp_def, List.zipIdx_map_fst]

theorem insertAll_eq (db : Database) (new : List Membership) :
    db.insertAll new =
      if ∀ m ∈ new, db.hasUser m.userId ∧ m.chatId ∈ db.chats then
        .ok { db with memberships := db.memberships ++ new }
      else .error .internal := by
  simp [Database.insertAll]

theorem outcome_insert (s : Store) (m : Membership) :
    outcome (s.commit (.insert m)) = settle s.toDatabase (s.toDatabase.insertAll [m]) := by
  have hall : (∀ m' ∈ [m], s.toDatabase.hasUser m'.userId ∧ m'.chatId ∈ s.toDatabase.chats) ↔
      s.hasUser m.userId ∧ m.chatId ∈ s.chats := List.forall_mem_singleton
  rw [commit, insertAll_eq, ← toDatabase_insertAll]
  by_cases hok : s.hasUser m.userId ∧ m.chatId ∈ s.chats
  · rw [if_pos hok, if_pos (hall.mpr hok)]
    rfl
  · rw [if_neg hok, if_neg fun h => hok (hall.mp h)]
    rfl

/-- The store with a chat that has no memberships yet. -/
def addChat (s : Store) (chatId : String) : Store := { s with chats := s.chats ++ [chatId] }

theorem outcome_commit_createChat (s : Store) (currentUser : String) (memberIds : List String)
    {chatId : String} (hchat : chatId ∉ s.chats) :
    outcome (s.commit (.createChat chatId
        (Endpoint.newMemberships currentUser memberIds chatId))) =
      settle s.toDatabase ((s.addChat chatId).toDatabase.insertAll
        (Endpoint.newMemberships currentUser memberIds chatId)) := by
  have hall : (∀ m ∈ Endpoint.newMemberships currentUser memberIds chatId,
      (s.addChat chatId).toDatabase.hasUser m.userId ∧
        m.chatId ∈ (s.addChat chatId).toDatabase.chats) ↔
      ∀ m ∈ Endpoint.newMemberships currentUser memberIds chatId, s.hasUser m.userId := by
    refine forall₂_congr fun m hm => and_iff_left ?_
    rw [chatId_newMemberships hm]
    exact List.mem_append_right _ (List.mem_singleton_self _)
  rw [commit, insertAll_eq, ← toDatabase_insertAll]
  by_cases hok : ∀ m ∈ Endpoint.newMemberships currentUser memberIds chatId, s.hasUser m.userId
  · rw [if_pos ⟨hchat, hok⟩, if_pos (hall.mpr hok)]
    rfl
  · rw [if_neg fun h => hok h.2, if_neg fun h => hok (hall.mp h)]
    rfl

/-- The only row of a user in a chat is the only one with its contents. -/
theorem toMembership_eq_iff (hkeyed : s.Keyed) {chatId userId : String} {row row' : Row}
    (hrow : s.rows chatId userId = [row]) (hrow' : row' ∈ s.memberships) :
    row'.toMembership = row.toMembership ↔ row'.id = row.id := by
  have hmem := mem_rows.mp (hrow ▸ List.mem_singleton_self row)
  constructor
  · intro h
    have hrow'' : row' ∈ s.rows chatId userId := by
      rw [mem_rows, h]
      exact ⟨hrow', hmem.2⟩
    rw [hrow, List.mem_singleton] at hrow''
    rw [hrow'']
  · intro h
    rw [List.inj_on_of_nodup_map hkeyed.rows hrow' hmem.1 h]

theorem outcome_delete (hkeyed : s.Keyed) {chatId userId : String} {row : Row}
    (hrow : s.rows chatId userId = [row]) :
    outcome (s.commit (.delete row)) =
      settle s.toDatabase (.ok (s.toDatabase.deleteRow row.toMembership)) := by
  rw [commit]
  refine congrArg (Prod.mk _) ?_
  simp only [toDatabase, Database.deleteRow, List.filter_map, Database.mk.injEq, true_and]
  refine congrArg _ (List.filter_congr fun row' hrow' => ?_)
  simp [toMembership_eq_iff hkeyed hrow hrow']

theorem outcome_setRole (hkeyed : s.Keyed) {chatId userId : String} {row : Row}
    (hrow : s.rows chatId userId = [row]) (role : MemberRole) :
    outcome (s.commit (.setRole row role)) =
      settle s.toDatabase (.ok (s.toDatabase.setRole row.toMembership role)) := by
  have hmem := (mem_rows.mp (hrow ▸ List.mem_singleton_self row)).1
  rw [commit]
  split
  · next hsame =>
      refine congrArg (Prod.mk _) ?_
      simp only [toDatabase, Database.setRole, Database.mk.injEq, true_and]
      symm
      refine List.map_id'' ?_ _
      intro m
      split
      · next heq => rw [heq, ← hsame]
      · rfl
  · rw [if_pos (by simpa using ⟨row, hmem, rfl⟩)]
    refine congrArg (Prod.mk _) ?_
    simp only [toDatabase, Database.setRole, List.map_map, Database.mk.injEq, true_and]
    refine List.map_congr_left fun row' hrow' => ?_
    simp only [Function.comp_apply, toMembership_eq_iff hkeyed hrow hrow']
    split <;> rfl

/-! ## The awaits -/

variable {α : Type}

theorem outcome_fromExcept (r : Except Failure α) {f : α → Endpoint Unit}
    {g : α → Except Failure Database}
    (h : ∀ a, outcome ((f a).run perform s) = settle s.toDatabase (g a)) :
    outcome ((Coroutine.fromExcept r >>= f).run perform s) = settle s.toDatabase (r >>= g) := by
  rw [Coroutine.run_bind, Coroutine.run_fromExcept]
  cases r with
  | error e => rfl
  | ok a => exact h a

theorem outcome_getCurrentUser (hkeyed : s.Keyed) (id : String) {f : Unit → Endpoint Unit}
    {g : Unit → Except Failure Database}
    (h : outcome ((f ()).run perform s) = settle s.toDatabase (g ())) :
    outcome ((Endpoint.getCurrentUser id >>= f).run perform s) =
      settle s.toDatabase (s.toDatabase.getCurrentUser id >>= g) := by
  rw [Coroutine.run_bind, run_getCurrentUser hkeyed]
  cases s.toDatabase.getCurrentUser id with
  | error e => rfl
  | ok _ => exact h

theorem outcome_findMembership (chatId userId : String) {f : Option Row → Endpoint Unit}
    {g : Option Membership → Except Failure Database}
    (hnone : outcome ((f none).run perform s) = settle s.toDatabase (g none))
    (hsome : ∀ row, s.rows chatId userId = [row] →
      outcome ((f (some row)).run perform s) = settle s.toDatabase (g (some row.toMembership))) :
    outcome ((Endpoint.findMembership chatId userId >>= f).run perform s) =
      settle s.toDatabase (s.toDatabase.findMembership chatId userId >>= g) := by
  rw [Coroutine.run_bind, run_findMembership, findMembership_toDatabase]
  rcases hrows : s.rows chatId userId with _ | ⟨row, _ | ⟨row', rest⟩⟩
  · exact hnone
  · exact hsome row hrows
  · rfl

/-! ## The endpoints -/

variable (hkeyed : s.Keyed)
include hkeyed

theorem outcome_createChat (currentUser : String) (req : CreateChatRequest) (chatId : String) :
    outcome ((Endpoint.createChat currentUser req chatId).run perform s) =
      settle s.toDatabase (s.toDatabase.createChat currentUser req chatId) := by
  refine outcome_getCurrentUser hkeyed _ ?_
  by_cases htype : req.chatType ∈ Database.chatTypes
  · by_cases hchat : chatId ∈ s.chats
    · simp [htype, hchat, Coroutine.run_bind, perform, toDatabase, outcome, settle]
    · have hcommit := outcome_commit_createChat s currentUser req.memberIds hchat
      simp only [htype, hchat, not_true_eq_false, toDatabase, or_self, if_false,
        Coroutine.run_bind, Coroutine.run_execute, perform, run_commit]
      exact hcommit
  · simp [htype, outcome, settle]

theorem outcome_addMember (currentUser chatId : String) (req : MemberRequest) :
    outcome ((Endpoint.addMember currentUser chatId req).run perform s) =
      settle s.toDatabase (s.toDatabase.addMember currentUser chatId req) := by
  refine outcome_getCurrentUser hkeyed _ (outcome_findMembership _ _ rfl fun caller _ => ?_)
  dsimp only
  split
  · rfl
  · refine outcome_findMembership _ _ ?_ fun _ _ => rfl
    refine outcome_fromExcept _ fun role => ?_
    rw [run_commit, outcome_insert]

theorem outcome_removeMember (currentUser chatId userId : String) :
    outcome ((Endpoint.removeMember currentUser chatId userId).run perform s) =
      settle s.toDatabase (s.toDatabase.removeMember currentUser chatId userId) := by
  refine outcome_getCurrentUser hkeyed _ (outcome_findMembership _ _ rfl fun caller _ => ?_)
  dsimp only
  split
  · rfl
  · refine outcome_findMembership _ _ rfl fun membership hmembership => ?_
    dsimp only
    split
    · rfl
    · rw [run_commit, outcome_delete hkeyed hmembership]

theorem outcome_updateMemberRole (currentUser chatId userId role : String) :
    outcome ((Endpoint.updateMemberRole currentUser chatId userId role).run perform s) =
      settle s.toDatabase (s.toDatabase.updateMemberRole currentUser chatId userId role) := by
  refine outcome_getCurrentUser hkeyed _ (outcome_findMembership _ _ rfl fun caller _ => ?_)
  dsimp only
  split
  · rfl
  · refine outcome_findMembership _ _ rfl fun membership hmembership => ?_
    refine outcome_fromExcept _ fun role => ?_
    rw [run_commit, outcome_setRole hkeyed hmembership]

/-- **A request alone** does what the function says. -/
theorem run_answer (req : Request) :
    ((Endpoint.answer req).run perform s).2.toDatabase = s.toDatabase.handle req := by
  have houtcome : outcome ((Endpoint.answer req).run perform s) =
      settle s.toDatabase (s.toDatabase.answer req) := by
    cases req with
    | createChat currentUser req chatId => exact outcome_createChat hkeyed currentUser req chatId
    | addMember currentUser chatId req => exact outcome_addMember hkeyed currentUser chatId req
    | removeMember currentUser chatId userId =>
        exact outcome_removeMember hkeyed currentUser chatId userId
    | updateMemberRole currentUser chatId userId role =>
        exact outcome_updateMemberRole hkeyed currentUser chatId userId role
  have hdb := congrArg Prod.snd houtcome
  rw [Database.handle]
  cases hanswer : s.toDatabase.answer req with
  | ok db' => rwa [hanswer] at hdb
  | error e => rwa [hanswer] at hdb

omit hkeyed

/-! ## Runs without overlaps -/

theorem Keyed.insertAll (h : s.Keyed) (new : List Membership) : (s.insertAll new).Keyed where
  users := h.users
  rows := by
    have hnew : ((new.zipIdx s.nextId).map fun p => p.2).Nodup := by
      rw [List.zipIdx_map_snd]
      exact List.nodup_range'
    rw [Store.insertAll, List.map_append, List.map_map, List.nodup_append]
    refine ⟨h.rows, hnew, ?_⟩
    intro id hid id' hid'
    obtain ⟨row, hrow, rfl⟩ := List.mem_map.mp hid
    obtain ⟨p, hp, rfl⟩ := List.mem_map.mp hid'
    have hlt := h.free row hrow
    have hle := List.le_snd_of_mem_zipIdx hp
    exact Nat.ne_of_lt (Nat.lt_of_lt_of_le hlt hle)
  free := by
    intro row hrow
    cases List.mem_append.mp hrow with
    | inl hold => exact Nat.lt_of_lt_of_le (h.free row hold) (Nat.le_add_right _ _)
    | inr hadded =>
        obtain ⟨p, hp, rfl⟩ := List.mem_map.mp hadded
        exact List.snd_lt_add_of_mem_zipIdx hp

theorem Keyed.setRole (h : s.Keyed) (row : Row) (role : MemberRole) :
    (s.commit (.setRole row role)).2.Keyed := by
  have hids : (s.memberships.map fun r : Row =>
      if r.id = row.id then { r with role := role } else r).map Row.id =
        s.memberships.map Row.id := by
    rw [List.map_map]
    refine List.map_congr_left fun r _ => ?_
    simp only [Function.comp_apply]
    split <;> rfl
  rw [commit]
  split
  · exact h
  · split
    · exact {
        users := h.users
        rows := (congrArg List.Nodup hids).mpr h.rows
        free := fun r hr => by
          obtain ⟨was, hwas, rfl⟩ := List.mem_map.mp hr
          have hlt := h.free was hwas
          split <;> exact hlt }
    · exact h

theorem Keyed.perform (h : s.Keyed) (op : Op) : (Store.perform op s).2.Keyed := by
  cases op with
  | commit change =>
      cases change with
      | createChat chatId new =>
          rw [Store.perform, commit]
          split
          · have hadded : (s.addChat chatId).Keyed := { h with }
            exact hadded.insertAll new
          · exact h
      | insert m =>
          rw [Store.perform, commit]
          split
          · exact h.insertAll [m]
          · exact h
      | delete row =>
          exact {
            users := h.users
            rows := h.rows.sublist (List.filter_sublist.map _)
            free := fun r hr => h.free r (List.mem_of_mem_filter hr) }
      | setRole row role => exact h.setRole row role
  | _ => exact h

theorem Keyed.run (h : s.Keyed) (t : Endpoint Unit) : (t.run Store.perform s).2.Keyed :=
  Coroutine.run_invariant Keyed (fun op _ hs => Keyed.perform hs op) t h

/-- **Runs without overlaps.**  What requests lead to one after the other, they can lead to
when they are interleaved. -/
theorem reachable_of_sequential {users : List User} (husers : (users.map User.id).Nodup)
    {db : Database} (h : (Database.system.startingAt { users := users }).Reachable db) :
    ∃ server, requests.Reachable server ∧ server.shared.toDatabase = db := by
  have hkept : ∃ server, requests.Reachable server ∧ server.shared.toDatabase = db
      ∧ server.shared.Keyed := by
    induction h with
    | init hstart =>
        cases hstart
        refine ⟨{ shared := { users := users } }, .init ⟨⟨rfl, rfl⟩, rfl⟩, rfl, husers, ?_, ?_⟩
        · exact List.nodup_nil
        · exact nofun
    | @step _ _ req _ _ hstep ih =>
        obtain ⟨server, hreachable, rfl, hkeyed⟩ := ih
        obtain ⟨server', hreachable', hshared⟩ := Pool.reachable_run req hreachable
        refine ⟨server', hreachable', ?_, ?_⟩
        · rw [hshared, run_answer hkeyed]
          exact hstep.symm
        · rw [hshared]
          exact hkeyed.run (Endpoint.answer req)
  obtain ⟨server, hreachable, hdb, -⟩ := hkept
  exact ⟨server, hreachable, hdb⟩

/-- One chat that was made, and its owner. -/
theorem reachable_of_sequential_createChat :
    ∃ server, requests.Reachable server ∧ server.shared.toDatabase =
      { users := [⟨"a", true⟩], chats := ["c"], memberships := [⟨"a", "c", .owner⟩] } := by
  have hinit : (Database.system.startingAt { users := [⟨"a", true⟩] }).Reachable
      { users := [⟨"a", true⟩] } := .init rfl
  have hcreated := hinit.step (a := .createChat "a" {} "c") trivial
    (show ({ users := [⟨"a", true⟩], chats := ["c"], memberships := [⟨"a", "c", .owner⟩] } :
      Database) = _ by decide)
  exact reachable_of_sequential (by decide) hcreated

end Store

end Backend

end MessengerClient
