import MessengerClient.Backend.WebSocket

/-!
# MessengerClient.Backend.WebSocket.Presence

What the sets of sockets say in the runs in which no set is changed while another handler
iterates over it, and no socket is taken off its user alone.
-/

namespace MessengerClient

namespace Backend

namespace WebSocket

/-! ## Sets -/

namespace SocketSet

variable {set : SocketSet} {ws : Socket} {gone : Finset Socket}

@[simp] theorem members_add : (set.add ws).members = insert ws set.members := by
  unfold add
  split
  · next h => rw [Finset.insert_eq_of_mem h]
  · rfl

theorem add_of_mem (h : ws ∈ set.members) : set.add ws = set := if_pos h

@[simp] theorem members_subtract : (set.subtract gone).members = set.members \ gone := by
  unfold subtract
  split
  · next h =>
      have hdisjoint := Finset.disjoint_iff_inter_eq_empty.mpr h
      exact (Finset.sdiff_eq_self_iff_disjoint.mpr hdisjoint).symm
  · rfl

theorem subtract_empty : set.subtract ∅ = set := if_pos (Finset.inter_empty _)

theorem mem_discard {ws' : Socket} :
    ws' ∈ (set.discard ws).members ↔ ws' ∈ set.members ∧ ws' ≠ ws := by
  simp [discard]

theorem discard_of_notMem (h : ws ∉ set.members) : set.discard ws = set :=
  if_pos (Finset.inter_singleton_of_notMem h)

end SocketSet

/-! ## What the operations of the manager change -/

namespace ConnectionManager

variable {m : ConnectionManager} {ws : Socket} {userId roomId : String} {t : Target}

theorem find_connect : (m.connect ws userId).find t =
    if t = .user userId then some (((m.find t).getD { object := m.nextObject }).add ws)
    else m.find t := by
  cases t with
  | room r => rfl
  | user u =>
      simp only [connect, find, addTo, Dict.find?_set, Target.user.injEq, eq_comm]
      split
      · next heq => rw [heq]
      · rfl

theorem find_joinRoom : (m.joinRoom ws roomId).find t =
    if t = .room roomId then some (((m.find t).getD { object := m.nextObject }).add ws)
    else m.find t := by
  cases t with
  | user u => rfl
  | room r =>
      simp only [joinRoom, find, addTo, Dict.find?_set, Target.room.injEq, eq_comm]
      split
      · next heq => rw [heq]
      · rfl

theorem find_leaveRoom : (m.leaveRoom ws roomId).find t =
    if t = .room roomId then (m.find t).map (·.discard ws) else m.find t := by
  unfold leaveRoom
  cases t with
  | user u => split <;> rfl
  | room r =>
      by_cases heq : roomId = r
      · subst heq
        split <;> simp_all [find]
      · have hne : ¬ r = roomId := fun h => heq h.symm
        split <;> simp [find, heq, hne]

theorem find_subtractDead {target : Target} {dead : Finset Socket} :
    (m.subtractDead target dead).find t =
      if t = target then (m.find t).map (·.subtract dead) else m.find t := by
  unfold subtractDead
  split
  · next set userId hset =>
      cases t with
      | room r => simp [find]
      | user u =>
          by_cases heq : userId = u
          · subst heq
            simp_all [find]
          · have hne : ¬ u = userId := fun h => heq h.symm
            simp [find, heq, hne]
  · next set roomId hset =>
      cases t with
      | user u => simp [find]
      | room r =>
          by_cases heq : roomId = r
          · subst heq
            simp_all [find]
          · have hne : ¬ r = roomId := fun h => heq h.symm
            simp [find, heq, hne]
  · next hnone =>
      split
      · next heq =>
          subst heq
          rw [hnone]
          rfl
      · rfl

theorem find_disconnect_room : (m.disconnect ws userId).find (.room roomId) =
    (m.find (.room roomId)).map (·.discard ws) := by
  simp [disconnect, find]

theorem find_disconnect_user_of_ne {u : String} (h : u ≠ userId) :
    (m.disconnect ws userId).find (.user u) = m.find (.user u) := by
  have hne : userId ≠ u := h.symm
  simp only [disconnect, find]
  split
  · split <;> simp [hne]
  · rfl

theorem find_disconnect_user : (m.disconnect ws userId).find (.user userId) =
    ((m.find (.user userId)).map (·.discard ws)).filter (·.members ≠ ∅) := by
  simp only [disconnect, find]
  split
  · next set hset =>
      split
      · next hempty => simp [hset, hempty, Option.filter]
      · next hsome => simp [hset, hsome, Option.filter]
  · next hnone => simp [hnone]

/-! ### The sockets of a set -/

/-- The sockets in the set of a user or of a room, none if there is no such set. -/
def sockets (m : ConnectionManager) (t : Target) : Finset Socket :=
  ((m.find t).map SocketSet.members).getD ∅

theorem sockets_of_find {set : SocketSet} (h : m.find t = some set) :
    m.sockets t = set.members := by
  simp [sockets, h]

theorem sockets_connect : (m.connect ws userId).sockets t =
    if t = .user userId then insert ws (m.sockets t) else m.sockets t := by
  simp only [sockets, find_connect]
  split
  · cases m.find t <;> simp
  · rfl

theorem sockets_joinRoom : (m.joinRoom ws roomId).sockets t =
    if t = .room roomId then insert ws (m.sockets t) else m.sockets t := by
  simp only [sockets, find_joinRoom]
  split
  · cases m.find t <;> simp
  · rfl

theorem sockets_leaveRoom : (m.leaveRoom ws roomId).sockets t =
    if t = .room roomId then m.sockets t \ {ws} else m.sockets t := by
  simp only [sockets, find_leaveRoom]
  split
  · cases m.find t <;> simp [SocketSet.discard]
  · rfl

theorem sockets_subtractDead {target : Target} {dead : Finset Socket} :
    (m.subtractDead target dead).sockets t =
      if t = target then m.sockets t \ dead else m.sockets t := by
  simp only [sockets, find_subtractDead]
  split
  · cases m.find t <;> simp
  · rfl

theorem sockets_disconnect_room : (m.disconnect ws userId).sockets (.room roomId) =
    m.sockets (.room roomId) \ {ws} := by
  simp only [sockets, find_disconnect_room]
  cases m.find (.room roomId) <;> simp [SocketSet.discard]

theorem sockets_disconnect_user_of_ne {u : String} (h : u ≠ userId) :
    (m.disconnect ws userId).sockets (.user u) = m.sockets (.user u) := by
  rw [sockets, find_disconnect_user_of_ne h, sockets]

/-- A set that is empty holds as much as none. -/
theorem members_filter (set : Option SocketSet) :
    ((set.filter (·.members ≠ ∅)).map SocketSet.members).getD ∅ =
      (set.map SocketSet.members).getD ∅ := by
  cases set with
  | none => rfl
  | some set => by_cases hempty : set.members = ∅ <;> simp [Option.filter, hempty]

theorem sockets_disconnect_user : (m.disconnect ws userId).sockets (.user userId) =
    m.sockets (.user userId) \ {ws} := by
  simp only [sockets, find_disconnect_user, members_filter]
  cases m.find (.user userId) <;> simp [SocketSet.discard]

theorem mem_sockets_disconnect {x : Socket}
    (h : x ∈ (m.disconnect ws userId).sockets t) : x ∈ m.sockets t := by
  cases t with
  | room roomId =>
      rw [sockets_disconnect_room] at h
      exact (Finset.mem_sdiff.mp h).1
  | user u =>
      by_cases heq : u = userId
      · rw [heq, sockets_disconnect_user] at h
        rw [heq]
        exact (Finset.mem_sdiff.mp h).1
      · rwa [sockets_disconnect_user_of_ne heq] at h

/-! ### Operations that change nothing -/

theorem find_joinRoom_of_mem (h : ws ∈ m.sockets (.room roomId)) :
    (m.joinRoom ws roomId).find t = m.find t := by
  rw [find_joinRoom]
  split
  · next heq =>
      subst heq
      cases hset : m.find (.room roomId) with
      | none => simp [sockets, hset] at h
      | some set =>
          rw [sockets_of_find hset] at h
          rw [Option.getD_some, SocketSet.add_of_mem h]
  · rfl

theorem map_discard_of_notMem (h : ws ∉ m.sockets t) :
    (m.find t).map (·.discard ws) = m.find t := by
  cases hset : m.find t with
  | none => rfl
  | some set =>
      rw [sockets_of_find hset] at h
      rw [Option.map_some, SocketSet.discard_of_notMem h]

theorem find_leaveRoom_of_notMem (h : ws ∉ m.sockets (.room roomId)) :
    (m.leaveRoom ws roomId).find t = m.find t := by
  rw [find_leaveRoom]
  split
  · next heq =>
      subst heq
      exact map_discard_of_notMem h
  · rfl

theorem find_disconnect_of_notMem (hlisted : ∀ set, m.find (.user userId) = some set →
      set.members ≠ ∅) (hroom : ∀ roomId, t = .room roomId → ws ∉ m.sockets t)
    (huser : t = .user userId → ws ∉ m.sockets t) :
    (m.disconnect ws userId).find t = m.find t := by
  cases t with
  | room roomId => rw [find_disconnect_room, map_discard_of_notMem (hroom roomId rfl)]
  | user u =>
      by_cases heq : u = userId
      · subst heq
        rw [find_disconnect_user, map_discard_of_notMem (huser rfl)]
        cases hset : m.find (.user u) with
        | none => rfl
        | some set => simp [Option.filter, hlisted set hset]
      · exact find_disconnect_user_of_ne heq

theorem find_subtractDead_of_disjoint {target : Target} {dead : Finset Socket}
    (h : m.sockets target ∩ dead = ∅) : (m.subtractDead target dead).find t = m.find t := by
  rw [find_subtractDead]
  split
  · next heq =>
      subst heq
      cases hset : m.find t with
      | none => rfl
      | some set =>
          rw [sockets_of_find hset] at h
          simp [SocketSet.subtract, h]
  · rfl

/-! ### Who is online -/

/-- A user is online as often as listed when no user is listed with no socket. -/
theorem isOnline_iff : (m.isOnline userId ↔ userId ∈ m.getOnlineUsers) ↔
    ∀ set, m.find (.user userId) = some set → set.members ≠ ∅ := by
  simp only [isOnline, getOnlineUsers, Dict.mem_keys_iff, find]
  cases Dict.find? m.userConnections userId <;> simp [Finset.card_pos, Finset.nonempty_iff_ne_empty]

/-- What the sets say of each other. -/
structure Agrees (m : ConnectionManager) : Prop where
  online : ∀ userId, m.isOnline userId ↔ userId ∈ m.getOnlineUsers
  /-- A socket in a room is a socket of a user. -/
  housed : ∀ roomId, ∀ ws ∈ m.sockets (.room roomId), ∃ userId, ws ∈ m.sockets (.user userId)

theorem Agrees.listed (h : m.Agrees) {set : SocketSet} (hset : m.find (.user userId) = some set) :
    set.members ≠ ∅ :=
  isOnline_iff.mp (h.online userId) set hset

theorem Agrees.connect (h : m.Agrees) : (m.connect ws userId).Agrees where
  online u := by
    rw [isOnline_iff]
    intro set hset
    rw [find_connect] at hset
    split at hset
    · obtain rfl := Option.some.inj hset
      simp
    · exact h.listed hset
  housed roomId x hx := by
    rw [sockets_connect, if_neg Target.noConfusion] at hx
    obtain ⟨u, hu⟩ := h.housed roomId x hx
    refine ⟨u, ?_⟩
    rw [sockets_connect]
    split
    · exact Finset.mem_insert_of_mem hu
    · exact hu

theorem Agrees.joinRoom (h : m.Agrees) (hws : ws ∈ m.sockets (.user userId)) :
    (m.joinRoom ws roomId).Agrees where
  online u := by
    rw [isOnline_iff]
    intro set hset
    rw [find_joinRoom, if_neg Target.noConfusion] at hset
    exact h.listed hset
  housed room x hx := by
    simp only [sockets_joinRoom] at hx ⊢
    split at hx
    · cases Finset.mem_insert.mp hx with
      | inl heq => exact ⟨userId, heq ▸ hws⟩
      | inr hold => exact h.housed room x hold
    · exact h.housed room x hx

theorem Agrees.leaveRoom (h : m.Agrees) : (m.leaveRoom ws roomId).Agrees where
  online u := by
    rw [isOnline_iff]
    intro set hset
    rw [find_leaveRoom, if_neg Target.noConfusion] at hset
    exact h.listed hset
  housed room x hx := by
    simp only [sockets_leaveRoom] at hx ⊢
    split at hx
    · exact h.housed room x (Finset.mem_sdiff.mp hx).1
    · exact h.housed room x hx

theorem Agrees.disconnect (h : m.Agrees) : (m.disconnect ws userId).Agrees where
  online u := by
    rw [isOnline_iff]
    intro set hset
    by_cases heq : u = userId
    · rw [heq, find_disconnect_user] at hset
      simpa using (Option.filter_eq_some_iff.mp hset).2
    · rw [find_disconnect_user_of_ne heq] at hset
      exact h.listed hset
  housed room x hx := by
    rw [sockets_disconnect_room, Finset.mem_sdiff] at hx
    obtain ⟨u, hu⟩ := h.housed room x hx.1
    refine ⟨u, ?_⟩
    by_cases heq : u = userId
    · rw [heq, sockets_disconnect_user]
      exact Finset.mem_sdiff.mpr ⟨heq ▸ hu, hx.2⟩
    · rwa [sockets_disconnect_user_of_ne heq]

theorem Agrees.of_find {m' : ConnectionManager} (h : m.Agrees)
    (hfind : ∀ t, m'.find t = m.find t) : m'.Agrees where
  online u := by
    rw [isOnline_iff, hfind]
    exact fun set hset => h.listed hset
  housed room x hx := by
    simp only [sockets, hfind] at hx ⊢
    exact h.housed room x hx

/-- Where dead sockets are taken off a user, one of the user's sockets stays, and none of
those that go is in a room. -/
def Sheds (m : ConnectionManager) (t : Target) (dead : Finset Socket) : Prop :=
  ∀ userId, t = .user userId → ¬ m.sockets t ⊆ dead ∧
    ∀ ws ∈ dead, ws ∈ m.sockets t → ∀ roomId, ws ∉ m.sockets (.room roomId)

theorem Agrees.subtractDead {target : Target} {dead : Finset Socket} (h : m.Agrees)
    (hsheds : m.Sheds target dead) : (m.subtractDead target dead).Agrees where
  online u := by
    rw [isOnline_iff]
    intro set hset
    rw [find_subtractDead] at hset
    split at hset
    · next heq =>
        obtain ⟨old, hold, rfl⟩ := Option.map_eq_some_iff.mp hset
        have hstays := (hsheds u heq.symm).1
        rw [← heq, sockets_of_find hold] at hstays
        simpa using hstays
    · exact h.listed hset
  housed room x hx := by
    have hroom : x ∈ m.sockets (.room room) := by
      rw [sockets_subtractDead] at hx
      split at hx
      · exact (Finset.mem_sdiff.mp hx).1
      · exact hx
    obtain ⟨u, hu⟩ := h.housed room x hroom
    refine ⟨u, ?_⟩
    rw [sockets_subtractDead]
    split
    · next heq =>
        have halive : x ∉ dead := fun hdead =>
          (hsheds u heq.symm).2 x hdead (heq ▸ hu) room hroom
        exact Finset.mem_sdiff.mpr ⟨hu, halive⟩
    · exact hu

end ConnectionManager

/-! ## Presence in a run -/

/-- The sockets that have failed once the current one was sent to. -/
def Sending.deadAfter (s : Sending) (ok : Bool) : Finset Socket :=
  if ok then s.dead else insert s.current s.dead

/-- A loop over a set is at one of its sockets, and the set is as it was at the start. -/
structure Sending.Begins (s : Sending) (m : ConnectionManager) (t : Target)
    (exclude : Option Socket) : Prop where
  target : s.target = t
  source : m.find t = some s.source
  current : s.current ∈ s.source.members
  excluded : exclude ≠ some s.current

namespace Sending.Begins

variable {s : Sending} {m : ConnectionManager} {t : Target} {exclude : Option Socket}

theorem find (h : s.Begins m t exclude) : m.find s.target = some s.source := by
  rw [h.target, h.source]

theorem mem_sockets (h : s.Begins m t exclude) : s.current ∈ m.sockets t := by
  rw [ConnectionManager.sockets_of_find h.source]
  exact h.current

end Sending.Begins

namespace ConnectionManager

variable {m : ConnectionManager}

/-- The first of some rooms that holds a socket. -/
def firstRoom (m : ConnectionManager) (rooms : List String) : Option String :=
  rooms.find? fun room => m.sockets (.room room) ≠ ∅

theorem all_empty_iff {t : Target} :
    (m.find t).all (·.members = ∅) = true ↔ m.sockets t = ∅ := by
  unfold sockets
  cases m.find t <;> simp

end ConnectionManager

/-- A loop whose set is as it was does not raise: it goes on over the same set, or ends. -/
theorem ConnectionManager.resume_cases {m : ConnectionManager} {s : Sending} {ok : Bool}
    {choice : Option Socket} {outcome : Outcome} (hsource : m.find s.target = some s.source)
    (h : m.resume s ok choice = some outcome) :
    (∃ next, outcome = .sending next ∧ m.find next.target = some next.source) ∨
      choice = none ∧ outcome = .finished (s.deadAfter ok) := by
  simp only [ConnectionManager.resume, hsource, ne_eq, not_true_eq_false, or_self,
    if_false] at h
  cases choice with
  | some ws =>
      dsimp only at h
      split at h
      · exact .inl ⟨_, (Option.some.inj h).symm, hsource⟩
      · cases h
  | none =>
      dsimp only at h
      split at h
      · exact .inr ⟨rfl, (Option.some.inj h).symm⟩
      · cases h

/-- The client of a handler is there. -/
def Stage.present : Stage → Prop
  | .receiving | .ponging | .sending _ .receive => True
  | .accepting | .sending _ (.leaving _) | .closed => False

namespace Server

variable {s s' : Server} {ws : Socket} {userId : String}

/-- No handler but that of one socket iterates over a set. -/
def Free (s : Server) (ws : Socket) (t : Target) : Prop :=
  ∀ ws' sending rest, s.stage ws' = some (.sending sending rest) → sending.target = t → ws' = ws

/-- **Presence and rooms agree with the open sockets.** -/
structure Agrees (s : Server) : Prop where
  manager : s.manager.Agrees
  /-- A socket whose client is not there is in no set, and one in the set of a user is that
  user's. -/
  present : ∀ t, ∀ ws ∈ s.manager.sockets t, ∃ h, s.handlers[ws]? = some h ∧
    h.stage.present ∧ ∀ userId, t = .user userId → h.userId = userId
  /-- A set that is iterated over is as it was when the iteration began. -/
  steady : ∀ ws sending rest, s.stage ws = some (.sending sending rest) →
    s.manager.find sending.target = some sending.source
  kept : s.raised = []

/-! ### Steps of a handler -/

theorem handlers_setStage {stage : Stage} {x : Socket} :
    (s.setStage ws stage).handlers[x]? =
      if x = ws then s.handlers[x]?.map ({ · with stage }) else s.handlers[x]? := by
  rw [setStage, List.getElem?_modify]
  split
  · next heq => simp [heq]
  · next hne => simp [Ne.symm hne]

theorem stage_setStage {stage : Stage} {x : Socket} (hne : x ≠ ws) :
    (s.setStage ws stage).stage x = s.stage x := by
  rw [Server.stage, handlers_setStage, if_neg hne, Server.stage]

theorem stage_setStage_self {stage stage' : Stage} {x : Socket}
    (h : (s.setStage x stage).stage x = some stage') : stage' = stage := by
  rw [Server.stage, handlers_setStage, if_pos rfl] at h
  cases hx : s.handlers[x]? <;> simp_all

variable {m : ConnectionManager} {stage old : Stage}

/-- **A step of one handler**: the sets have the sockets that they had, but for its own, and
those that have changed are not iterated over by others. -/
theorem Agrees.move (h : s.Agrees) (hws : s.handlers[ws]? = some ⟨userId, old⟩)
    (hm : m.Agrees) (hsub : ∀ t, ∀ x ∈ m.sockets t, x ≠ ws → x ∈ s.manager.sockets t)
    (hself : ∀ t, ws ∈ m.sockets t → stage.present ∧ ∀ u, t = .user u → userId = u)
    (hfind : ∀ t, m.find t = s.manager.find t ∨ s.Free ws t)
    (hstage : ∀ sending rest, stage = .sending sending rest →
      m.find sending.target = some sending.source) :
    ({ s with manager := m }.setStage ws stage).Agrees where
  manager := hm
  present t x hx := by
    rw [handlers_setStage]
    split
    · next heq =>
        obtain rfl := heq
        obtain ⟨hpresent, howner⟩ := hself t hx
        exact ⟨_, congrArg (Option.map _) hws, hpresent, howner⟩
    · next hne => exact h.present t x (hsub t x hx hne)
  steady x sending rest hx := by
    by_cases hne : x = ws
    · subst hne
      exact hstage sending rest (stage_setStage_self hx).symm
    · rw [stage_setStage hne] at hx
      cases hfind sending.target with
      | inl hsame => exact hsame.trans (h.steady x sending rest hx)
      | inr hfree => exact absurd (hfree x sending rest hx rfl) hne
  kept := h.kept

theorem Agrees.self {t : Target} (h : s.Agrees) (hws : s.handlers[ws]? = some ⟨userId, old⟩)
    (hmem : ws ∈ s.manager.sockets t) : old.present ∧ ∀ u, t = .user u → userId = u := by
  obtain ⟨handler, hhandler, hpresent, howner⟩ := h.present t ws hmem
  obtain rfl := Option.some.inj (hws.symm.trans hhandler)
  exact ⟨hpresent, howner⟩

/-- A step that changes no set. -/
theorem Agrees.stay (h : s.Agrees) (hws : s.handlers[ws]? = some ⟨userId, old⟩)
    (hpresent : old.present → stage.present)
    (hstage : ∀ sending rest, stage = .sending sending rest →
      s.manager.find sending.target = some sending.source) : (s.setStage ws stage).Agrees := by
  refine h.move hws h.manager (fun t x hx _ => hx) (fun t hmem => ?_) (fun t => .inl rfl) hstage
  have hself := h.self hws hmem
  exact ⟨hpresent hself.1, hself.2⟩

/-! ### Loops of sends -/

variable {target : Target} {message : Message} {exclude choice : Option Socket}

theorem begins_of_send {sending : Sending}
    (h : m.send target message exclude choice = some (.sending sending)) :
    sending.Begins m target exclude := by
  cases choice with
  | some x =>
      simp only [ConnectionManager.send, Option.bind_eq_bind, Option.bind_eq_some_iff] at h
      obtain ⟨set, hset, h⟩ := h
      split at h
      · next hmem =>
          obtain rfl := Outcome.sending.inj (Option.some.inj h)
          exact ⟨rfl, hset, hmem.1, hmem.2⟩
      · cases h
  | none =>
      rw [ConnectionManager.send] at h
      split at h
      · split at h <;> cases h
      · cases h

/-- A loop of sends: the handler receives again, or it has begun. -/
theorem send_cases (h : s.send ws target message exclude choice = some s') :
    s' = s.setStage ws .receiving ∨
      ∃ sending, s' = s.setStage ws (.sending sending .receive) ∧
        sending.Begins s.manager target exclude := by
  unfold Server.send at h
  split at h
  · next sending hsend => exact .inr ⟨sending, (Option.some.inj h).symm, begins_of_send hsend⟩
  · exact .inl (Option.some.inj h).symm
  · cases h

/-- Where the rooms are told: it is over, or the first one that holds a socket is told. -/
theorem leaveRooms_cases {rooms : List String}
    (h : s.leaveRooms ws userId rooms choice = some s') :
    s' = s.setStage ws .closed ∨
      ∃ sending room later, s' = s.setStage ws (.sending sending (.leaving later)) ∧
        s.manager.firstRoom rooms = some room ∧ later ⊆ rooms ∧
        sending.Begins s.manager (.room room) none := by
  induction rooms with
  | nil =>
      rw [leaveRooms] at h
      split at h
      · exact .inl (Option.some.inj h).symm
      · cases h
  | cons room rooms ih =>
      rw [leaveRooms] at h
      split at h
      · next hempty =>
          rw [ConnectionManager.all_empty_iff] at hempty
          refine (ih h).imp_right ?_
          rintro ⟨sending, first, later, rfl, hfirst, hlater, hbegins⟩
          refine ⟨sending, first, later, rfl, ?_, List.subset_cons_of_subset _ hlater, hbegins⟩
          rw [ConnectionManager.firstRoom, List.find?_cons_of_neg (by simpa using hempty)]
          exact hfirst
      · next hsome =>
          rw [ConnectionManager.all_empty_iff] at hsome
          split at h
          · next sending hsend =>
              refine .inr ⟨sending, room, rooms, (Option.some.inj h).symm, ?_,
                List.subset_cons_self _ _, begins_of_send hsend⟩
              exact List.find?_cons_of_pos (by simpa using hsome)
          · cases h

/-- A loop over a set begins after the sets have changed. -/
theorem Agrees.moveSend (h : s.Agrees) (hws : s.handlers[ws]? = some ⟨userId, .receiving⟩)
    (hm : m.Agrees) (hsub : ∀ t, ∀ x ∈ m.sockets t, x ≠ ws → x ∈ s.manager.sockets t)
    (hself : ∀ u, ws ∈ m.sockets (.user u) → ws ∈ s.manager.sockets (.user u))
    (hfind : ∀ t, m.find t = s.manager.find t ∨ s.Free ws t)
    (hsend : { s with manager := m }.send ws target message exclude choice = some s') :
    s'.Agrees := by
  have howner (t : Target) (hmem : ws ∈ m.sockets t) : ∀ u, t = .user u → userId = u := by
    rintro u rfl
    exact (h.self hws (hself u hmem)).2 u rfl
  cases send_cases hsend with
  | inl hover =>
      subst hover
      exact h.move hws hm hsub (fun t hmem => ⟨trivial, howner t hmem⟩) hfind nofun
  | inr hbegun =>
      obtain ⟨sending, rfl, hbegins⟩ := hbegun
      refine h.move hws hm hsub (fun t hmem => ⟨trivial, howner t hmem⟩) hfind ?_
      rintro _ _ ⟨⟩
      exact hbegins.find

/-! ### Clients that come and go -/

theorem Agrees.accepted (h : s.Agrees) (hws : s.handlers[ws]? = some ⟨userId, .accepting⟩)
    (hfree : s.Free ws (.user userId)) :
    ({ s with manager := s.manager.connect ws userId }.setStage ws .receiving).Agrees := by
  refine h.move hws h.manager.connect (fun t x hx hne => ?_) (fun t hmem => ⟨trivial, ?_⟩)
    (fun t => ?_) nofun
  · rw [ConnectionManager.sockets_connect] at hx
    split at hx
    · exact Finset.mem_of_mem_insert_of_ne hx hne
    · exact hx
  · intro u heq
    rw [ConnectionManager.sockets_connect] at hmem
    split at hmem
    · next hself => exact (Target.user.inj (heq.symm.trans hself)).symm
    · exact (h.self hws hmem).2 u heq
  · by_cases hself : t = .user userId
    · exact .inr (hself ▸ hfree)
    · rw [ConnectionManager.find_connect, if_neg hself]
      exact .inl rfl

/-- No other handler iterates over the set of the user, or over a room, that a socket is in. -/
def Loose (s : Server) (ws : Socket) (userId : String) : Prop :=
  (ws ∈ s.manager.sockets (.user userId) → s.Free ws (.user userId)) ∧
    ∀ roomId, ws ∈ s.manager.sockets (.room roomId) → s.Free ws (.room roomId)

theorem Agrees.gone (h : s.Agrees) (hws : s.handlers[ws]? = some ⟨userId, old⟩)
    (hloose : s.Loose ws userId)
    (hstage : ∀ sending rest, stage = .sending sending rest →
      (s.manager.disconnect ws userId).find sending.target = some sending.source) :
    ({ s with manager := s.manager.disconnect ws userId }.setStage ws stage).Agrees := by
  refine h.move hws h.manager.disconnect
    (fun t x hx _ => ConnectionManager.mem_sockets_disconnect hx)
    (fun t hmem => absurd hmem ?_) (fun t => ?_) hstage
  · cases t with
    | room roomId => simp [ConnectionManager.sockets_disconnect_room]
    | user u =>
        by_cases heq : u = userId
        · simp [heq, ConnectionManager.sockets_disconnect_user]
        · rw [ConnectionManager.sockets_disconnect_user_of_ne heq]
          exact fun hmem => heq ((h.self hws hmem).2 u rfl).symm
  · by_cases hmem : ws ∈ s.manager.sockets t
    · cases t with
      | room roomId => exact .inr (hloose.2 roomId hmem)
      | user u =>
          obtain rfl := (h.self hws hmem).2 u rfl
          exact .inr (hloose.1 hmem)
    · exact .inl (ConnectionManager.find_disconnect_of_notMem
        (fun set hset => h.manager.listed hset) (fun _ _ => hmem) fun _ => hmem)

theorem Agrees.failed (h : s.Agrees) (hws : s.handlers[ws]? = some ⟨userId, old⟩)
    (hloose : s.Loose ws userId) : (s.failed ws userId).Agrees :=
  h.gone hws hloose nofun

theorem Agrees.disconnected (h : s.Agrees) (hws : s.handlers[ws]? = some ⟨userId, old⟩)
    (hloose : s.Loose ws userId) (hnext : s.disconnected ws userId choice = some s') :
    s'.Agrees := by
  cases leaveRooms_cases hnext with
  | inl hover =>
      subst hover
      exact h.gone hws hloose nofun
  | inr htold =>
      obtain ⟨sending, room, later, rfl, -, -, hbegins⟩ := htold
      refine h.gone hws hloose ?_
      rintro _ _ ⟨⟩
      exact hbegins.find

/-! ### Rooms -/

theorem Agrees.joins {roomId : String} (h : s.Agrees)
    (hws : s.handlers[ws]? = some ⟨userId, .receiving⟩)
    (hmine : ws ∈ s.manager.sockets (.user userId))
    (hfree : ws ∈ s.manager.sockets (.room roomId) ∨ s.Free ws (.room roomId))
    (hsend : { s with manager := s.manager.joinRoom ws roomId }.send ws target message exclude
      choice = some s') : s'.Agrees := by
  refine h.moveSend hws (h.manager.joinRoom hmine) (fun t x hx hne => ?_) (fun u hmem => ?_)
    (fun t => ?_) hsend
  · rw [ConnectionManager.sockets_joinRoom] at hx
    split at hx
    · exact Finset.mem_of_mem_insert_of_ne hx hne
    · exact hx
  · rwa [ConnectionManager.sockets_joinRoom, if_neg Target.noConfusion] at hmem
  · cases hfree with
    | inl hmem => exact .inl (ConnectionManager.find_joinRoom_of_mem hmem)
    | inr hfree =>
        by_cases heq : t = .room roomId
        · exact .inr (heq ▸ hfree)
        · rw [ConnectionManager.find_joinRoom, if_neg heq]
          exact .inl rfl

theorem Agrees.leaves {roomId : String} (h : s.Agrees)
    (hws : s.handlers[ws]? = some ⟨userId, .receiving⟩)
    (hfree : ws ∈ s.manager.sockets (.room roomId) → s.Free ws (.room roomId))
    (hsend : { s with manager := s.manager.leaveRoom ws roomId }.send ws target message exclude
      choice = some s') : s'.Agrees := by
  refine h.moveSend hws h.manager.leaveRoom (fun t x hx _ => ?_) (fun u hmem => ?_)
    (fun t => ?_) hsend
  · rw [ConnectionManager.sockets_leaveRoom] at hx
    split at hx
    · exact (Finset.mem_sdiff.mp hx).1
    · exact hx
  · rwa [ConnectionManager.sockets_leaveRoom, if_neg Target.noConfusion] at hmem
  · by_cases hmem : ws ∈ s.manager.sockets (.room roomId)
    · by_cases heq : t = .room roomId
      · exact .inr (heq ▸ hfree hmem)
      · rw [ConnectionManager.find_leaveRoom, if_neg heq]
        exact .inl rfl
    · exact .inl (ConnectionManager.find_leaveRoom_of_notMem hmem)

/-! ### Dead sockets -/

/-- No other handler iterates over a set that dead sockets are taken off, and where the set is
a user's, one socket of the user stays and those that go are in no room. -/
def Drops (s : Server) (ws : Socket) (t : Target) (dead : Finset Socket) : Prop :=
  s.manager.sockets t ∩ dead = ∅ ∨ s.Free ws t ∧ s.manager.Sheds t dead

theorem Agrees.drops {dead : Finset Socket} (h : s.Agrees)
    (hws : s.handlers[ws]? = some ⟨userId, old⟩) (hdrops : s.Drops ws target dead)
    (hpresent : old.present → stage.present)
    (hstage : ∀ sending rest, stage = .sending sending rest →
      (s.manager.subtractDead target dead).find sending.target = some sending.source) :
    ({ s with manager := s.manager.subtractDead target dead }.setStage ws stage).Agrees := by
  have hsub (t : Target) : ∀ x ∈ (s.manager.subtractDead target dead).sockets t,
      x ∈ s.manager.sockets t := by
    intro x hx
    rw [ConnectionManager.sockets_subtractDead] at hx
    split at hx
    · exact (Finset.mem_sdiff.mp hx).1
    · exact hx
  have hself (t : Target) (hmem : ws ∈ (s.manager.subtractDead target dead).sockets t) :
      stage.present ∧ ∀ u, t = .user u → userId = u :=
    (h.self hws (hsub t ws hmem)).imp_left hpresent
  cases hdrops with
  | inl hdisjoint =>
      have hfind (t : Target) := ConnectionManager.find_subtractDead_of_disjoint (t := t) hdisjoint
      exact h.move hws (h.manager.of_find hfind) (fun t x hx _ => hsub t x hx) hself
        (fun t => .inl (hfind t)) hstage
  | inr hfree =>
      refine h.move hws (h.manager.subtractDead hfree.2) (fun t x hx _ => hsub t x hx) hself
        (fun t => ?_) hstage
      by_cases heq : t = target
      · exact .inr (heq ▸ hfree.1)
      · rw [ConnectionManager.find_subtractDead, if_neg heq]
        exact .inl rfl

/-! ### Runs -/

/-- **What keeps presence and rooms.**  A set that a step changes is iterated over by no
other handler; a socket joins rooms while it is in the set of its user; and sockets that
failed leave the user one socket and are in no room. -/
def Calm (s : Server) : Action → Prop
  | .connect _ => True
  | .accepted ws ok => ∀ userId, s.handlers[ws]? = some ⟨userId, .accepting⟩ → ok →
      s.Free ws (.user userId)
  | .received ws event _ => ∀ userId, s.handlers[ws]? = some ⟨userId, .receiving⟩ →
      match event with
      | .joinChat chatId => chatId ≠ "" → ws ∈ s.manager.sockets (.user userId) ∧
          (ws ∈ s.manager.sockets (.room chatId) ∨ s.Free ws (.room chatId))
      | .leaveChat chatId => chatId ≠ "" → ws ∈ s.manager.sockets (.room chatId) →
          s.Free ws (.room chatId)
      | .malformed | .disconnected => s.Loose ws userId
      | _ => True
  | .sent ws ok choice _ => ∀ userId sending rest,
      s.handlers[ws]? = some ⟨userId, .sending sending rest⟩ → choice = none →
        s.Drops ws sending.target (sending.deadAfter ok)
  | .ponged ws reply _ => ∀ userId, s.handlers[ws]? = some ⟨userId, .ponging⟩ → reply ≠ .ok →
      s.Loose ws userId

/-- An event, by what it is. -/
theorem Agrees.received {event : Received} (h : s.Agrees)
    (hws : s.handlers[ws]? = some ⟨userId, .receiving⟩)
    (hcalm : s.Calm (.received ws event choice))
    (hnext : s.received ws userId event choice = some s') : s'.Agrees := by
  have hcalm := hcalm userId hws
  have hsend {target : Target} {message : Message} {exclude : Option Socket}
      (hsend : s.send ws target message exclude choice = some s') : s'.Agrees :=
    h.moveSend hws h.manager (fun _ _ hx _ => hx) (fun _ hmem => hmem) (fun _ => .inl rfl) hsend
  cases event with
  | joinChat chatId =>
      simp only [Server.received] at hnext
      split at hnext
      · exact Option.some.inj hnext ▸ h
      · next hne => exact h.joins hws (hcalm hne).1 (hcalm hne).2 hnext
  | leaveChat chatId =>
      simp only [Server.received] at hnext
      split at hnext
      · exact Option.some.inj hnext ▸ h
      · next hne => exact h.leaves hws (hcalm hne) hnext
  | typing chatId =>
      simp only [Server.received] at hnext
      split at hnext
      · exact Option.some.inj hnext ▸ h
      · exact hsend hnext
  | readReceipt chatId messageId =>
      simp only [Server.received] at hnext
      split at hnext
      · exact Option.some.inj hnext ▸ h
      · exact hsend hnext
  | presence status => exact hsend hnext
  | ping => exact Option.some.inj hnext ▸ h.stay hws id nofun
  | other => exact Option.some.inj hnext ▸ h
  | malformed => exact Option.some.inj hnext ▸ h.failed hws hcalm
  | disconnected => exact h.disconnected hws hcalm hnext

/-- A loop of sends goes on or ends. -/
theorem Agrees.sent {sending : Sending} {rest : Rest} {ok : Bool} {later : Option Socket}
    (h : s.Agrees) (hws : s.handlers[ws]? = some ⟨userId, .sending sending rest⟩)
    (hcalm : s.Calm (.sent ws ok choice later))
    (hnext : s.sent ws userId sending rest ok choice later = some s') : s'.Agrees := by
  have hsource : s.manager.find sending.target = some sending.source :=
    h.steady ws sending rest (by rw [Server.stage, hws]; rfl)
  cases hresume : s.manager.resume sending ok choice with
  | none => simp [Server.sent, hresume] at hnext
  | some outcome =>
      unfold Server.sent at hnext
      rw [hresume] at hnext
      rcases ConnectionManager.resume_cases hsource hresume with
        ⟨next, rfl, hfind⟩ | ⟨hend, rfl⟩
      · obtain rfl := Option.some.inj hnext
        refine h.stay hws (fun hpresent => ?_) fun _ _ heq => ?_
        · cases rest <;> exact hpresent
        · obtain ⟨rfl, -⟩ := Stage.sending.inj heq
          exact hfind
      · have hdrops := hcalm userId sending rest hws hend
        cases rest with
        | receive => exact Option.some.inj hnext ▸ h.drops hws hdrops id nofun
        | leaving rooms =>
            cases leaveRooms_cases hnext with
            | inl hover =>
                subst hover
                exact h.drops hws hdrops False.elim nofun
            | inr htold =>
                obtain ⟨next, room, later, rfl, -, -, hbegins⟩ := htold
                refine h.drops hws hdrops False.elim ?_
                rintro _ _ ⟨⟩
                exact hbegins.find

theorem Agrees.ponged {reply : Reply} (h : s.Agrees)
    (hws : s.handlers[ws]? = some ⟨userId, .ponging⟩)
    (hcalm : s.Calm (.ponged ws reply choice))
    (hnext : s.ponged ws userId reply choice = some s') : s'.Agrees := by
  cases reply with
  | ok => exact Option.some.inj hnext ▸ h.stay hws id nofun
  | failed =>
      exact Option.some.inj hnext ▸ h.failed hws (hcalm userId hws Reply.noConfusion)
  | disconnected => exact h.disconnected hws (hcalm userId hws Reply.noConfusion) hnext

/-- A client comes: its handler is at its first await. -/
theorem Agrees.connects (h : s.Agrees) :
    Agrees { s with handlers := s.handlers ++ [{ userId }] } where
  manager := h.manager
  present t x hx := by
    obtain ⟨handler, hhandler, hpresent⟩ := h.present t x hx
    refine ⟨handler, ?_, hpresent⟩
    rw [List.getElem?_append_left (List.getElem?_eq_some_iff.mp hhandler).1]
    exact hhandler
  steady x sending rest hx := by
    refine h.steady x sending rest ?_
    rw [Server.stage, List.getElem?_append] at hx
    split at hx
    · exact hx
    · rw [List.getElem?_singleton] at hx
      split at hx <;> cases hx
  kept := h.kept

theorem Agrees.next {a : Action} (h : s.Agrees) (hcalm : s.Calm a) (hnext : s.next a = some s') :
    s'.Agrees := by
  cases a with
  | connect userId => exact Option.some.inj hnext ▸ h.connects
  | accepted ws ok =>
      rw [Server.next] at hnext
      split at hnext
      · next userId hws =>
          split at hnext
          · next hok => exact Option.some.inj hnext ▸ h.accepted hws (hcalm userId hws hok)
          · exact Option.some.inj hnext ▸ h.stay hws False.elim nofun
      · cases hnext
  | received ws event choice =>
      rw [Server.next] at hnext
      split at hnext
      · next userId hws => exact h.received hws hcalm hnext
      · cases hnext
  | sent ws ok choice later =>
      rw [Server.next] at hnext
      split at hnext
      · next userId sending rest hws => exact h.sent hws hcalm hnext
      · cases hnext
  | ponged ws reply choice =>
      rw [Server.next] at hnext
      split at hnext
      · next userId hws => exact h.ponged hws hcalm hnext
      · cases hnext

/-- **Presence and rooms** agree with the open sockets, and no iteration has its set changed
under it or raises, in every state of the runs whose steps are calm. -/
theorem agrees_of_calm (h : system.Reached Calm s) : s.Agrees := by
  induction h with
  | init hinit =>
      obtain rfl := hinit
      refine ⟨⟨fun userId => ?_, nofun⟩, nofun, fun ws sending rest hx => ?_, rfl⟩
      · rw [ConnectionManager.isOnline_iff]
        nofun
      · simp [Server.stage] at hx
  | step _ hcalm hnext ih => exact ih.next hcalm hnext

/-- A client that joins a chat alone. -/
theorem agrees_of_calm_join :
    Agrees {
      manager := {
        connections := [("c", ⟨1, {0}, 1⟩)]
        userConnections := [("u", ⟨0, {0}, 1⟩)]
        nextObject := 2 }
      handlers := [⟨"u", .receiving⟩] } := by
  have hfree (t : Target) : Free { handlers := [⟨"u", .accepting⟩] } 0 t := by
    intro ws' sending rest hstage
    cases ws' <;> simp [Server.stage] at hstage
  have hjoin (m : ConnectionManager) (t : Target) :
      Free { manager := m, handlers := [⟨"u", .receiving⟩] } 0 t := by
    intro ws' sending rest hstage
    cases ws' <;> simp [Server.stage] at hstage
  refine agrees_of_calm (.step (a := .received 0 (.joinChat "c") none)
    (.step (a := .accepted 0 true) (.step (a := .connect "u") (.init rfl) trivial rfl) ?_ rfl) ?_
    (show Server.next _ _ = _ by decide))
  · intro userId hws _
    exact hfree _
  · intro userId hws hne
    obtain rfl := congrArg Handler.userId (Option.some.inj hws)
    exact ⟨by decide, .inr (hjoin _ _)⟩

/-- The presence of a client whose only socket does not take it. -/
def deadPresence : List Action :=
  [.connect "u", .accepted 0 true, .received 0 (.presence "away") (some 0),
    .sent 0 false none none]

/-- A client joins a chat while the other two are told of the one before. -/
def joinUnderBroadcast : List Action :=
  [.connect "u", .accepted 0 true, .connect "v", .accepted 1 true, .connect "w",
    .accepted 2 true, .received 0 (.joinChat "c") none, .received 1 (.joinChat "c") (some 0),
    .received 2 (.joinChat "c") (some 0), .sent 1 true none none]

/-- A user is listed who is not online, and an iteration raises. -/
theorem not_agrees :
    (¬ ∀ s : Server, system.Reachable s → ∀ userId,
      (s.manager.isOnline userId ↔ userId ∈ s.manager.getOnlineUsers)) ∧
    ¬ ∀ s : Server, system.Reachable s → s.raised = [] := by
  constructor
  · intro h
    have hrun : ∃ s, deadPresence.foldlM next {} = some s ∧
        s.manager.isOnline "u" = false ∧ "u" ∈ s.manager.getOnlineUsers :=
      ⟨_, rfl, by decide, by decide⟩
    obtain ⟨s, hnext, hoffline, hlisted⟩ := hrun
    have honline := (h s (.foldlM (.init rfl) (fun _ _ _ hstep => hstep) hnext) "u").mpr hlisted
    rw [hoffline] at honline
    cases honline
  · intro h
    have hrun : ∃ s, joinUnderBroadcast.foldlM next {} = some s ∧ s.raised = [.room "c"] :=
      ⟨_, rfl, by decide⟩
    obtain ⟨s, hnext, hraised⟩ := hrun
    have hkept := h s (.foldlM (.init rfl) (fun _ _ _ hstep => hstep) hnext)
    rw [hraised] at hkept
    cases hkept

end Server

end WebSocket

end Backend

end MessengerClient
