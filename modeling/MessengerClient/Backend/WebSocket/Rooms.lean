import MessengerClient.Backend.Interleaving
import MessengerClient.Backend.WebSocket.Presence

/-!
# MessengerClient.Backend.WebSocket.Rooms

The rooms of the sockets next to the memberships of the chats: the handlers and the
requests that change memberships take turns in any order, and only a member's events go to
the room of a chat, to members alone, while no handler is given one of the inputs that it
does not check.
-/

namespace MessengerClient

namespace Backend

/-! ## Memberships that are there -/

namespace Store

variable {s : Store} {chatId userId : String}

def IsMember (s : Store) (chatId userId : String) : Prop := s.rows chatId userId ≠ []

theorem isMember_iff : s.IsMember chatId userId ↔ (chatId, userId) ∈ s.memberships.map Row.key := by
  rw [IsMember, ne_eq, rows_eq_nil_iff, not_not]

/-- An operation keeps a membership unless it deletes the only row of it. -/
theorem IsMember.perform {op : Op} (h : s.IsMember chatId userId)
    (hop : ∀ row, op = .commit (.delete row) → ∃ r ∈ s.rows chatId userId, r.id ≠ row.id) :
    (perform op s).2.IsMember chatId userId := by
  rw [isMember_iff] at h ⊢
  cases op with
  | selectUser id => exact h
  | selectMembership chatId userId => exact h
  | flushChat chatId => exact h
  | commit change =>
      cases change with
      | createChat chatId new =>
          simp only [Store.perform, commit]
          split
          · rw [map_key_insertAll]
            exact List.mem_append_left _ h
          · exact h
      | insert m =>
          simp only [Store.perform, commit]
          split
          · rw [map_key_insertAll]
            exact List.mem_append_left _ h
          · exact h
      | setRole row role =>
          rw [Store.perform, map_key_setRole]
          exact h
      | delete row =>
          obtain ⟨r, hr, hne⟩ := hop row rfl
          obtain ⟨hmem, rfl, rfl⟩ := mem_rows.mp hr
          have hstays : r ∈ s.memberships.filter (·.id ≠ row.id) :=
            List.mem_filter.mpr ⟨hmem, by simpa using hne⟩
          exact List.mem_map_of_mem hstays

end Store

namespace WebSocket

/-! ## The sockets and the requests -/

/-- The rooms that a socket is in. -/
def ConnectionManager.roomsOf (m : ConnectionManager) (ws : Socket) : List String :=
  (Dict.keys m.connections).filter fun room => ws ∈ m.sockets (.room room)

theorem ConnectionManager.mem_roomsOf {m : ConnectionManager} {ws : Socket} {room : String} :
    room ∈ m.roomsOf ws ↔ ws ∈ m.sockets (.room room) := by
  rw [roomsOf, List.mem_filter, decide_eq_true_eq, and_iff_right_iff_imp]
  intro h
  rw [Dict.mem_keys_iff]
  cases hset : Dict.find? m.connections room with
  | none => simp [sockets, find, hset] at h
  | some set => exact ⟨set, rfl⟩

/-- A handler that stays at its await. -/
theorem Server.setStage_self {s : Server} {ws : Socket} {userId : String} {stage : Stage}
    (h : s.handlers[ws]? = some ⟨userId, stage⟩) : s.setStage ws stage = s := by
  have hhandlers : (s.setStage ws stage).handlers = s.handlers := by
    refine List.ext_getElem? fun x => ?_
    rw [handlers_setStage]
    split
    · next heq =>
        subst heq
        rw [h]
        rfl
    · rfl
  exact congrArg (fun handlers => { s with handlers }) hhandlers

/-- The handlers of the sockets, and the requests over the database. -/
structure Chats where
  sockets : Server := {}
  requests : Backend.Server
  /-- The rooms that a socket was in when its handler last had something from its client. -/
  joined : Socket → List String := fun _ => []

inductive Event where
  | socket (a : Action)
  | request (turn : Turn Request)

/-- The socket whose handler takes the step. -/
def Action.socket : Action → Option Socket
  | .connect _ => none
  | .accepted ws _ | .received ws _ _ | .sent ws _ _ _ | .ponged ws _ _ => some ws

namespace Chats

variable (c : Chats)

def noted : Action → Socket → List String
  | .received ws _ _ | .ponged ws _ _ =>
      Function.update c.joined ws (c.sockets.manager.roomsOf ws)
  | .connect _ | .accepted _ _ | .sent _ _ _ _ => c.joined

def next : Event → Option Chats
  | .socket a => (c.sockets.next a).map fun s => { c with sockets := s, joined := c.noted a }
  | .request turn =>
      (c.requests.next Endpoint.answer Store.perform turn).map fun pool =>
        { c with requests := pool }

def system : System Chats Event where
  init c := c.sockets = {} ∧ Backend.requests.init c.requests
  step c e c' := c.next e = some c'

def IsMember (chatId userId : String) : Prop := c.requests.shared.IsMember chatId userId

/-- **Events stay inside the chat.**  What a handler has begun to send to a room comes from
a member of the chat and goes to one, and after a disconnect to a room that the socket was
in. -/
def Inside (ws : Socket) : Prop :=
  ∀ h x rest, c.sockets.handlers[ws]? = some h → h.stage = .sending x rest →
    ∀ chatId, x.target = .room chatId →
      c.IsMember chatId h.userId ∧
      (∃ recipient, c.sockets.handlers[x.current]? = some recipient ∧
        c.IsMember chatId recipient.userId) ∧
      ∀ rooms, rest = .leaving rooms → chatId ∈ c.joined ws

/-! ## What is not checked -/

/-- A room holds a socket besides one. -/
def Heard (ws : Socket) (chatId : String) : Prop :=
  ∃ x ∈ c.sockets.manager.sockets (.room chatId), x ≠ ws

/-- The first room that is told of a disconnect, if any, is one that the socket is in. -/
def Leaves (ws : Socket) (userId : String) : Prop :=
  let m := c.sockets.manager.disconnect ws userId
  ∀ room, m.firstRoom (Dict.keys m.connections) = some room →
    ws ∈ c.sockets.manager.sockets (.room room)

/-- No socket of a user is in the room of a chat, and no handler of the user is telling the
room or still has to. -/
def Evicted (chatId userId : String) : Prop :=
  ∀ ws h, c.sockets.handlers[ws]? = some h → h.userId = userId →
    ws ∉ c.sockets.manager.sockets (.room chatId) ∧
    ∀ x rest, h.stage = .sending x rest → x.target ≠ .room chatId ∧
      ∀ rooms, rest = .leaving rooms → chatId ∈ rooms → chatId ∉ c.joined ws

/-- **The inputs that keep events inside the chat.**  Members alone join a room or have
something sent to it; a disconnect comes to no room, of those that hold a socket, that the
socket was not in; and a membership is deleted when the user has left the room. -/
def Admits : Event → Prop
  | .socket (.received ws event _) =>
      ∀ userId, c.sockets.handlers[ws]? = some ⟨userId, .receiving⟩ →
        match event with
        | .joinChat chatId => chatId ≠ "" → c.IsMember chatId userId
        | .leaveChat chatId | .typing chatId =>
            chatId ≠ "" → c.Heard ws chatId → c.IsMember chatId userId
        | .readReceipt chatId messageId =>
            chatId ≠ "" → messageId ≠ "" → c.Heard ws chatId → c.IsMember chatId userId
        | .disconnected => c.Leaves ws userId
        | _ => True
  | .socket (.ponged ws reply _) =>
      ∀ userId, c.sockets.handlers[ws]? = some ⟨userId, .ponging⟩ → reply = .disconnected →
        c.Leaves ws userId
  | .socket (.sent ws ok choice _) =>
      ∀ userId x rooms dead,
        c.sockets.handlers[ws]? = some ⟨userId, .sending x (.leaving rooms)⟩ →
        c.sockets.manager.resume x ok choice = some (.finished dead) →
        ∀ room, (c.sockets.manager.subtractDead x.target dead).firstRoom rooms = some room →
          room ∈ c.joined ws
  | .socket (.connect _) | .socket (.accepted _ _) => True
  | .request turn => c.requests.Allows (fun store _ op =>
      ∀ row, op = .commit (.delete row) → ∀ r ∈ store.memberships, r.id = row.id →
        (∀ other ∈ store.rows r.chatId r.userId, other.id = row.id) →
          c.Evicted r.chatId r.userId) turn

/-! ## Members in rooms -/

/-- A handler that sends to a room is a member's, and so it is for the rooms that a disconnect
still comes to, where the socket was in them. -/
structure Causes (was : List String) (userId : String) (x : Sending) (rest : Rest) : Prop where
  member : ∀ chatId, x.target = .room chatId → c.IsMember chatId userId
  joined : ∀ chatId, x.target = .room chatId → ∀ rooms, rest = .leaving rooms → chatId ∈ was
  later : ∀ rooms, rest = .leaving rooms → ∀ chatId ∈ rooms, chatId ∈ was →
    c.IsMember chatId userId

/-- The invariant: sockets in a room are of members, and so are the handlers that tell it. -/
structure Members : Prop where
  housed : ∀ chatId, ∀ ws ∈ c.sockets.manager.sockets (.room chatId),
    ∃ h, c.sockets.handlers[ws]? = some h ∧ c.IsMember chatId h.userId
  causing : ∀ ws h x rest, c.sockets.handlers[ws]? = some h → h.stage = .sending x rest →
    c.Causes (c.joined ws) h.userId x rest

variable {c} {c' : Chats} {ws : Socket} {userId : String} {old stage : Stage}
  {m : ConnectionManager} {raised : List Target} {joined : Socket → List String}

theorem Members.member {chatId : String} (h : c.Members)
    (hws : c.sockets.handlers[ws]? = some ⟨userId, old⟩)
    (hmem : ws ∈ c.sockets.manager.sockets (.room chatId)) : c.IsMember chatId userId := by
  obtain ⟨handler, hhandler, hmember⟩ := h.housed chatId ws hmem
  obtain rfl := Option.some.inj (hws.symm.trans hhandler)
  exact hmember

/-- The chats after a handler has changed the sets and gone to another await. -/
def moved (c : Chats) (m : ConnectionManager) (raised : List Target) (ws : Socket)
    (stage : Stage) (joined : Socket → List String) : Chats :=
  { c with sockets := { c.sockets with manager := m, raised }.setStage ws stage, joined }

/-- **A step of one handler**: a socket that comes into a room is its own and a member's, and
what it sends comes from a member and goes to a socket in the room. -/
theorem Members.move (h : c.Members) (hws : c.sockets.handlers[ws]? = some ⟨userId, old⟩)
    (hsub : ∀ chatId, ∀ x ∈ m.sockets (.room chatId),
      x ∈ c.sockets.manager.sockets (.room chatId) ∨ x = ws ∧ c.IsMember chatId userId)
    (hjoined : ∀ x, x ≠ ws → joined x = c.joined x)
    (hstage : ∀ x rest, stage = .sending x rest → c.Causes (joined ws) userId x rest ∧
      ∀ chatId, x.target = .room chatId → x.current ∈ m.sockets (.room chatId)) :
    (c.moved m raised ws stage joined).Members ∧
      (c.moved m raised ws stage joined).Inside ws := by
  have hhandlers (x : Socket) : (c.moved m raised ws stage joined).sockets.handlers[x]? =
      if x = ws then c.sockets.handlers[x]?.map ({ · with stage }) else c.sockets.handlers[x]? :=
    Server.handlers_setStage
  have hself : (c.moved m raised ws stage joined).sockets.handlers[ws]? =
      some ⟨userId, stage⟩ := by
    rw [hhandlers, if_pos rfl, hws]
    rfl
  have hhoused : ∀ chatId, ∀ x ∈ m.sockets (.room chatId), ∃ handler,
      (c.moved m raised ws stage joined).sockets.handlers[x]? = some handler ∧
        c.IsMember chatId handler.userId := by
    intro chatId x hx
    by_cases heq : x = ws
    · subst heq
      refine ⟨_, hself, ?_⟩
      cases hsub chatId x hx with
      | inl hold => exact h.member hws hold
      | inr hjoins => exact hjoins.2
    · rw [hhandlers, if_neg heq]
      exact h.housed chatId x ((hsub chatId x hx).resolve_right fun hjoins => heq hjoins.1)
  refine ⟨⟨hhoused, ?_⟩, ?_⟩
  · intro x handler sending rest hx hsending
    by_cases heq : x = ws
    · subst heq
      obtain rfl := Option.some.inj (hself.symm.trans hx)
      obtain ⟨hmember, hjoined, hlater⟩ := (hstage sending rest hsending).1
      exact ⟨hmember, hjoined, hlater⟩
    · rw [hhandlers, if_neg heq] at hx
      have hcauses := h.causing x handler sending rest hx hsending
      rw [← hjoined x heq] at hcauses
      obtain ⟨hmember, hjoined, hlater⟩ := hcauses
      exact ⟨hmember, hjoined, hlater⟩
  · intro handler sending rest hx hsending chatId htarget
    obtain rfl := Option.some.inj (hself.symm.trans hx)
    obtain ⟨hcauses, hcurrent⟩ := hstage sending rest hsending
    exact ⟨hcauses.member chatId htarget, hhoused chatId _ (hcurrent chatId htarget),
      hcauses.joined chatId htarget⟩

/-! ### Loops of sends -/

variable {t : Target} {chatId : String} {message : Message} {exclude choice : Option Socket}
  {s s' : Server}

/-- A loop that has begun over a room, not after a disconnect, for a member. -/
theorem causes_receive {x : Sending} {was : List String} (hbegins : x.Begins m t exclude)
    (hmember : ∀ chatId, t = .room chatId → c.IsMember chatId userId) :
    c.Causes was userId x .receive where
  member chatId htarget := hmember chatId (hbegins.target ▸ htarget)
  joined := nofun
  later := nofun

/-- A loop begins after the handler's own socket has come into a room or has left one. -/
theorem Members.moveSend (h : c.Members)
    (hws : c.sockets.handlers[ws]? = some ⟨userId, .receiving⟩)
    (hsub : ∀ chatId, ∀ x ∈ m.sockets (.room chatId),
      x ∈ c.sockets.manager.sockets (.room chatId) ∨ x = ws ∧ c.IsMember chatId userId)
    (hjoined : ∀ x, x ≠ ws → joined x = c.joined x)
    (hmember : ∀ chatId, t = .room chatId → ∀ x ∈ m.sockets t, exclude ≠ some x →
      c.IsMember chatId userId)
    (hsend : { c.sockets with manager := m }.send ws t message exclude choice = some s) :
    Members { c with sockets := s, joined } ∧ Inside { c with sockets := s, joined } ws := by
  cases Server.send_cases hsend with
  | inl hover =>
      subst hover
      exact h.move hws hsub hjoined nofun
  | inr hbegun =>
      obtain ⟨x, rfl, hbegins⟩ := hbegun
      refine h.move hws hsub hjoined ?_
      rintro _ _ ⟨⟩
      refine ⟨causes_receive hbegins fun chatId htarget =>
        hmember chatId htarget _ hbegins.mem_sockets hbegins.excluded, fun chatId htarget => ?_⟩
      rw [← htarget, hbegins.target]
      exact hbegins.mem_sockets

/-- The rooms that are told of a disconnect, from one of a list on. -/
theorem Members.moveLeave {rooms : List String} (h : c.Members)
    (hws : c.sockets.handlers[ws]? = some ⟨userId, old⟩)
    (hsub : ∀ chatId, ∀ x ∈ m.sockets (.room chatId), x ∈ c.sockets.manager.sockets (.room chatId))
    (hjoined : ∀ x, x ≠ ws → joined x = c.joined x)
    (hfirst : ∀ room, m.firstRoom rooms = some room → room ∈ joined ws)
    (hmember : ∀ room ∈ rooms, room ∈ joined ws → c.IsMember room userId)
    (hleave : { c.sockets with manager := m }.leaveRooms ws userId rooms choice = some s) :
    Members { c with sockets := s, joined } ∧ Inside { c with sockets := s, joined } ws := by
  have hsub : ∀ chatId, ∀ x ∈ m.sockets (.room chatId),
      x ∈ c.sockets.manager.sockets (.room chatId) ∨ x = ws ∧ c.IsMember chatId userId :=
    fun chatId x hx => .inl (hsub chatId x hx)
  cases Server.leaveRooms_cases hleave with
  | inl hover =>
      subst hover
      exact h.move hws hsub hjoined nofun
  | inr htold =>
      obtain ⟨x, room, later, rfl, hroom, hlater, hbegins⟩ := htold
      have hwas : room ∈ joined ws := hfirst room hroom
      have hmem : room ∈ rooms := List.mem_of_find?_eq_some hroom
      have htarget (chatId : String) (htarget : x.target = .room chatId) : chatId = room :=
        Target.room.inj (htarget.symm.trans hbegins.target)
      refine h.move hws hsub hjoined ?_
      rintro _ _ ⟨⟩
      refine ⟨⟨?_, ?_, ?_⟩, ?_⟩
      · intro chatId hchat
        rw [htarget chatId hchat]
        exact hmember room hmem hwas
      · intro chatId hchat _ _
        rwa [htarget chatId hchat]
      · rintro _ ⟨⟩ chatId hchat hjoins
        exact hmember chatId (hlater hchat) hjoins
      · intro chatId hchat
        rw [htarget chatId hchat]
        exact hbegins.mem_sockets

/-- A loop that goes on is over the same set, and at a socket that is in it. -/
theorem resume_sending {x next : Sending} {ok : Bool}
    (h : m.resume x ok choice = some (.sending next)) :
    next.target = x.target ∧ next.current ∈ m.sockets next.target := by
  simp only [ConnectionManager.resume] at h
  split at h
  · split at h <;> cases h
  · next set hset =>
      split at h
      · split at h <;> cases h
      · cases choice with
        | some recipient =>
            dsimp only at h
            split at h
            · next hmem =>
                obtain rfl := Outcome.sending.inj (Option.some.inj h)
                refine ⟨rfl, ?_⟩
                rw [ConnectionManager.sockets_of_find hset]
                exact hmem.1
            · cases h
        | none =>
            dsimp only at h
            split at h <;> cases h

/-! ### Steps -/

/-- The client is gone, and rooms are told. -/
theorem Members.disconnected (h : c.Members)
    (hws : c.sockets.handlers[ws]? = some ⟨userId, old⟩) (hleaves : c.Leaves ws userId)
    (hjoined : ∀ x, x ≠ ws → joined x = c.joined x)
    (hwas : joined ws = c.sockets.manager.roomsOf ws)
    (hnext : c.sockets.disconnected ws userId choice = some s) :
    Members { c with sockets := s, joined } ∧ Inside { c with sockets := s, joined } ws := by
  refine h.moveLeave hws (fun chatId x hx => ConnectionManager.mem_sockets_disconnect hx) hjoined
    (fun room hroom => ?_) (fun room _ hmem => ?_) hnext
  · rw [hwas, ConnectionManager.mem_roomsOf]
    exact hleaves room hroom
  · rw [hwas, ConnectionManager.mem_roomsOf] at hmem
    exact h.member hws hmem

/-- The handler is over. -/
theorem Members.failed (h : c.Members) (hws : c.sockets.handlers[ws]? = some ⟨userId, old⟩)
    (hjoined : ∀ x, x ≠ ws → joined x = c.joined x) :
    Members { c with sockets := { c.sockets with raised }.failed ws userId, joined } ∧
      Inside { c with sockets := { c.sockets with raised }.failed ws userId, joined } ws :=
  h.move hws (fun _ _ hx => .inl (ConnectionManager.mem_sockets_disconnect hx)) hjoined nofun

/-- No set is changed. -/
theorem Members.stay (h : c.Members) (hws : c.sockets.handlers[ws]? = some ⟨userId, old⟩)
    (hjoined : ∀ x, x ≠ ws → joined x = c.joined x)
    (hstage : ∀ x rest, stage ≠ .sending x rest) :
    Members { c with sockets := c.sockets.setStage ws stage, joined } ∧
      Inside { c with sockets := c.sockets.setStage ws stage, joined } ws :=
  h.move hws (fun _ _ hx => .inl hx) hjoined fun x rest heq => absurd heq (hstage x rest)

theorem Members.joins (h : c.Members) (hws : c.sockets.handlers[ws]? = some ⟨userId, .receiving⟩)
    (hjoined : ∀ x, x ≠ ws → joined x = c.joined x) (hmember : c.IsMember chatId userId)
    (hsend : { c.sockets with manager := c.sockets.manager.joinRoom ws chatId }.send ws
      (.room chatId) message exclude choice = some s) :
    Members { c with sockets := s, joined } ∧ Inside { c with sockets := s, joined } ws := by
  refine h.moveSend hws (fun room x hx => ?_) hjoined ?_ hsend
  · rw [ConnectionManager.sockets_joinRoom] at hx
    split at hx
    · next heq =>
        obtain rfl := Target.room.inj heq
        exact (Finset.mem_insert.mp hx).symm.imp_right fun heq => ⟨heq, hmember⟩
    · exact .inl hx
  · rintro _ ⟨⟩ _ _ _
    exact hmember

theorem Members.leaves (h : c.Members)
    (hws : c.sockets.handlers[ws]? = some ⟨userId, .receiving⟩)
    (hjoined : ∀ x, x ≠ ws → joined x = c.joined x)
    (hmember : c.Heard ws chatId → c.IsMember chatId userId)
    (hsend : { c.sockets with manager := c.sockets.manager.leaveRoom ws chatId }.send ws
      (.room chatId) message exclude choice = some s) :
    Members { c with sockets := s, joined } ∧ Inside { c with sockets := s, joined } ws := by
  refine h.moveSend hws (fun room x hx => .inl ?_) hjoined ?_ hsend
  · rw [ConnectionManager.sockets_leaveRoom] at hx
    split at hx
    · exact (Finset.mem_sdiff.mp hx).1
    · exact hx
  · rintro _ ⟨⟩ x hx -
    rw [ConnectionManager.sockets_leaveRoom, if_pos rfl, Finset.mem_sdiff] at hx
    exact hmember ⟨x, hx.1, by simpa using hx.2⟩

/-- Something is sent to a room that the handler does not change. -/
theorem Members.tells (h : c.Members) (hws : c.sockets.handlers[ws]? = some ⟨userId, .receiving⟩)
    (hjoined : ∀ x, x ≠ ws → joined x = c.joined x)
    (hmember : c.Heard ws chatId → c.IsMember chatId userId)
    (hsend : c.sockets.send ws (.room chatId) message (some ws) choice = some s) :
    Members { c with sockets := s, joined } ∧ Inside { c with sockets := s, joined } ws := by
  refine h.moveSend hws (fun room x hx => .inl hx) hjoined ?_ hsend
  rintro _ ⟨⟩ x hx hne
  exact hmember ⟨x, hx, fun heq => hne (heq ▸ rfl)⟩

theorem Members.received {event : Received} (h : c.Members)
    (hws : c.sockets.handlers[ws]? = some ⟨userId, .receiving⟩)
    (hadmits : c.Admits (.socket (.received ws event choice)))
    (hnext : c.sockets.received ws userId event choice = some s) :
    Members { c with sockets := s, joined := c.noted (.received ws event choice) } ∧
      Inside { c with sockets := s, joined := c.noted (.received ws event choice) } ws := by
  have hadmits := hadmits userId hws
  have hjoined : ∀ x, x ≠ ws → c.noted (.received ws event choice) x = c.joined x :=
    fun x hne => Function.update_of_ne hne _ _
  have hsame (hsame : some c.sockets = some s) :
      Members { c with sockets := s, joined := c.noted (.received ws event choice) } ∧
        Inside { c with sockets := s, joined := c.noted (.received ws event choice) } ws := by
    obtain rfl := Option.some.inj hsame
    have hself := Server.setStage_self hws
    rw [← hself]
    exact h.stay hws hjoined (fun _ _ heq => Stage.noConfusion heq)
  cases event with
  | joinChat chatId =>
      simp only [Server.received] at hnext
      split at hnext
      · exact hsame hnext
      · next hne => exact h.joins hws hjoined (hadmits hne) hnext
  | leaveChat chatId =>
      simp only [Server.received] at hnext
      split at hnext
      · exact hsame hnext
      · next hne => exact h.leaves hws hjoined (hadmits hne) hnext
  | typing chatId =>
      simp only [Server.received] at hnext
      split at hnext
      · exact hsame hnext
      · next hne => exact h.tells hws hjoined (hadmits hne) hnext
  | readReceipt chatId messageId =>
      simp only [Server.received] at hnext
      split at hnext
      · exact hsame hnext
      · next hne =>
          rw [not_or] at hne
          exact h.tells hws hjoined (hadmits hne.1 hne.2) hnext
  | presence status =>
      exact h.moveSend hws (fun _ _ hx => .inl hx) hjoined (fun _ heq => Target.noConfusion heq)
        hnext
  | ping => exact Option.some.inj hnext ▸ h.stay hws hjoined (fun _ _ heq => Stage.noConfusion heq)
  | other => exact hsame hnext
  | malformed => exact Option.some.inj hnext ▸ h.failed hws hjoined
  | disconnected => exact h.disconnected hws hadmits hjoined (Function.update_self _ _ _) hnext

theorem Members.ponged {reply : Reply} (h : c.Members)
    (hws : c.sockets.handlers[ws]? = some ⟨userId, .ponging⟩)
    (hadmits : c.Admits (.socket (.ponged ws reply choice)))
    (hnext : c.sockets.ponged ws userId reply choice = some s) :
    Members { c with sockets := s, joined := c.noted (.ponged ws reply choice) } ∧
      Inside { c with sockets := s, joined := c.noted (.ponged ws reply choice) } ws := by
  have hjoined : ∀ x, x ≠ ws → c.noted (.ponged ws reply choice) x = c.joined x :=
    fun x hne => Function.update_of_ne hne _ _
  cases reply with
  | ok => exact Option.some.inj hnext ▸ h.stay hws hjoined nofun
  | failed => exact Option.some.inj hnext ▸ h.failed hws hjoined
  | disconnected =>
      exact h.disconnected hws (hadmits userId hws rfl) hjoined (Function.update_self _ _ _) hnext

theorem Members.sent {sending : Sending} {rest : Rest} {ok : Bool} {later : Option Socket}
    (h : c.Members) (hws : c.sockets.handlers[ws]? = some ⟨userId, .sending sending rest⟩)
    (hadmits : c.Admits (.socket (.sent ws ok choice later)))
    (hnext : c.sockets.sent ws userId sending rest ok choice later = some s) :
    Members { c with sockets := s } ∧ Inside { c with sockets := s } ws := by
  have hcauses := h.causing ws _ sending rest hws rfl
  have hdead (target : Target) (dead : Finset Socket) (chatId : String) :
      ∀ x ∈ (c.sockets.manager.subtractDead target dead).sockets (.room chatId),
        x ∈ c.sockets.manager.sockets (.room chatId) := by
    intro x hx
    rw [ConnectionManager.sockets_subtractDead] at hx
    split at hx
    · exact (Finset.mem_sdiff.mp hx).1
    · exact hx
  unfold Server.sent at hnext
  split at hnext
  · next next rest hresume =>
      obtain rfl := Option.some.inj hnext
      obtain ⟨htarget, hcurrent⟩ := resume_sending hresume
      refine h.move hws (fun _ _ hx => .inl hx) (fun _ _ => rfl) ?_
      rintro _ _ ⟨⟩
      refine ⟨⟨?_, ?_, hcauses.later⟩, fun chatId hchat => hchat ▸ hcurrent⟩
      · rw [htarget]
        exact hcauses.member
      · rw [htarget]
        exact hcauses.joined
  · obtain rfl := Option.some.inj hnext
    exact h.move hws (fun chatId x hx => .inl (hdead _ _ chatId x hx)) (fun _ _ => rfl) nofun
  · next dead rooms hresume =>
      exact h.moveLeave hws (hdead _ _) (fun _ _ => rfl)
        (hadmits userId sending rooms dead hws hresume) (hcauses.later rooms rfl) hnext
  · obtain rfl := Option.some.inj hnext
    exact h.failed hws fun _ _ => rfl
  · obtain rfl := Option.some.inj hnext
    exact h.move hws (fun _ _ hx => .inl hx) (fun _ _ => rfl) nofun
  · cases hnext

theorem Members.accepted (h : c.Members)
    (hws : c.sockets.handlers[ws]? = some ⟨userId, .accepting⟩) :
    Members { c with
      sockets := { c.sockets with manager := c.sockets.manager.connect ws userId }.setStage ws
        .receiving } ∧
    Inside { c with
      sockets := { c.sockets with manager := c.sockets.manager.connect ws userId }.setStage ws
        .receiving } ws := by
  refine h.move hws (fun chatId x hx => .inl ?_) (fun _ _ => rfl) nofun
  rwa [ConnectionManager.sockets_connect, if_neg Target.noConfusion] at hx

theorem Members.connects (h : c.Members) :
    Members { c with sockets.handlers := c.sockets.handlers ++ [{ userId }] } where
  housed chatId x hx := by
    obtain ⟨handler, hhandler, hmember⟩ := h.housed chatId x hx
    refine ⟨handler, ?_, hmember⟩
    rw [List.getElem?_append_left (List.getElem?_eq_some_iff.mp hhandler).1]
    exact hhandler
  causing x handler sending rest hx hsending := by
    have hold : c.sockets.handlers[x]? = some handler := by
      rw [List.getElem?_append] at hx
      split at hx
      · exact hx
      · rw [List.getElem?_singleton] at hx
        split at hx
        · cases hx
          cases hsending
        · cases hx
    obtain ⟨hmember, hjoined, hlater⟩ := h.causing x handler sending rest hold hsending
    exact ⟨hmember, hjoined, hlater⟩

/-- **A step of the sockets.** -/
theorem Members.socket {a : Action} (h : c.Members) (hadmits : c.Admits (.socket a))
    (hnext : c.sockets.next a = some s) :
    Members { c with sockets := s, joined := c.noted a } ∧
      ∀ ws, a.socket = some ws → Inside { c with sockets := s, joined := c.noted a } ws := by
  cases a with
  | connect userId =>
      refine ⟨Option.some.inj hnext ▸ h.connects, fun ws hsocket => ?_⟩
      exact absurd hsocket (Option.some_ne_none ws).symm
  | accepted ws ok =>
      rw [Server.next] at hnext
      split at hnext
      · next userId hws =>
          have hmoved : Members { c with sockets := s } ∧ Inside { c with sockets := s } ws := by
            split at hnext
            · exact Option.some.inj hnext ▸ h.accepted hws
            · exact Option.some.inj hnext ▸
                h.stay hws (fun _ _ => rfl) (fun _ _ heq => Stage.noConfusion heq)
          refine hmoved.imp_right ?_
          rintro hinside _ ⟨⟩
          exact hinside
      · cases hnext
  | received ws event choice =>
      rw [Server.next] at hnext
      split at hnext
      · next userId hws =>
          refine (h.received hws hadmits hnext).imp_right ?_
          rintro hinside _ ⟨⟩
          exact hinside
      · cases hnext
  | sent ws ok choice later =>
      rw [Server.next] at hnext
      split at hnext
      · next userId sending rest hws =>
          refine (h.sent hws hadmits hnext).imp_right ?_
          rintro hinside _ ⟨⟩
          exact hinside
      · cases hnext
  | ponged ws reply choice =>
      rw [Server.next] at hnext
      split at hnext
      · next userId hws =>
          refine (h.ponged hws hadmits hnext).imp_right ?_
          rintro hinside _ ⟨⟩
          exact hinside
      · cases hnext

/-- A turn of the requests keeps a membership of a user who is not evicted. -/
theorem isMember_of_turn {turn : Turn Request} {pool : Backend.Server}
    (hadmits : c.Admits (.request turn))
    (hnext : c.requests.next Endpoint.answer Store.perform turn = some pool)
    (hmember : c.IsMember chatId userId) (hevicted : ¬ c.Evicted chatId userId) :
    pool.shared.IsMember chatId userId := by
  rcases Pool.next_cases hnext with ⟨req, rfl, rfl⟩ | ⟨i, req, op, resume, rfl, hi, rfl⟩
  · exact hmember
  · refine hmember.perform fun row hop => ?_
    by_contra hlast
    push Not at hlast
    obtain ⟨r, hr⟩ := List.exists_mem_of_ne_nil _ hmember
    obtain ⟨hrow, hchat, huser⟩ := Store.mem_rows.mp hr
    have hgone := hadmits req op resume hi row hop r hrow (hlast r hr)
    rw [hchat, huser] at hgone
    exact hevicted (hgone hlast)

/-- **A step of the requests.** -/
theorem Members.request {turn : Turn Request} {pool : Backend.Server} (h : c.Members)
    (hadmits : c.Admits (.request turn))
    (hnext : c.requests.next Endpoint.answer Store.perform turn = some pool) :
    Members { c with requests := pool } where
  housed chatId ws hws := by
    obtain ⟨handler, hhandler, hmember⟩ := h.housed chatId ws hws
    refine ⟨handler, hhandler, isMember_of_turn hadmits hnext hmember fun hevicted => ?_⟩
    exact (hevicted ws handler hhandler rfl).1 hws
  causing ws handler x rest hhandler hsending := by
    obtain ⟨hmember, hjoined, hlater⟩ := h.causing ws handler x rest hhandler hsending
    refine ⟨fun chatId htarget => ?_, hjoined, fun rooms hrooms chatId hchat hwas => ?_⟩
    · refine isMember_of_turn hadmits hnext (hmember chatId htarget) fun hevicted => ?_
      exact ((hevicted ws handler hhandler rfl).2 x rest hsending).1 htarget
    · refine isMember_of_turn hadmits hnext (hlater rooms hrooms chatId hchat hwas)
        fun hevicted => ?_
      exact ((hevicted ws handler hhandler rfl).2 x rest hsending).2 rooms hrooms hchat hwas

/-! ### Runs -/

theorem next_socket {a : Action} (h : c.next (.socket a) = some c') :
    ∃ s, c.sockets.next a = some s ∧ c' = { c with sockets := s, joined := c.noted a } := by
  obtain ⟨s, hs, rfl⟩ := Option.map_eq_some_iff.mp h
  exact ⟨s, hs, rfl⟩

theorem next_request {turn : Turn Request} (h : c.next (.request turn) = some c') :
    ∃ pool, c.requests.next Endpoint.answer Store.perform turn = some pool ∧
      c' = { c with requests := pool } := by
  obtain ⟨pool, hpool, rfl⟩ := Option.map_eq_some_iff.mp h
  exact ⟨pool, hpool, rfl⟩

theorem members_of_reached (h : system.Reached Admits c) : c.Members := by
  induction h with
  | @init c hinit =>
      obtain ⟨sockets, requests, joined⟩ := c
      obtain ⟨rfl, -⟩ := hinit
      exact ⟨nofun, fun ws handler x rest hws => by simp at hws⟩
  | @step c c' e _ hadmits hnext ih =>
      cases e with
      | socket a =>
          obtain ⟨s, hs, rfl⟩ := next_socket hnext
          exact (ih.socket hadmits hs).1
      | request turn =>
          obtain ⟨pool, hpool, rfl⟩ := next_request hnext
          exact ih.request hadmits hpool

/-- **Chat events stay inside the chat** in the runs in which no input comes to a handler
that it would have to check. -/
theorem inside_of_admits {a : Action} (h : system.Reached Admits c)
    (hadmits : c.Admits (.socket a)) (hstep : system.step c (.socket a) c') :
    ∀ ws, a.socket = some ws → c'.Inside ws := by
  obtain ⟨s, hs, rfl⟩ := next_socket hstep
  exact ((members_of_reached h).socket hadmits hs).2

/-- Two users, and nobody is connected. -/
def twoUsers : Chats := { requests := Store.twoUsers }

/-- Two members of a chat join its room. -/
def twoMembers : List Event :=
  [.request (.start (.createChat "a" { memberIds := ["b"] } "1")), .request (.resume 0),
    .request (.resume 0), .request (.resume 0), .socket (.connect "a"), .socket (.accepted 0 true),
    .socket (.connect "b"), .socket (.accepted 1 true), .socket (.received 0 (.joinChat "1") none),
    .socket (.received 1 (.joinChat "1") (some 0))]

theorem inside_of_admits_twoMembers : ∃ c, twoMembers.foldlM next twoUsers = some c ∧
    ∀ ws, (Action.received 1 (.joinChat "1") (some 0)).socket = some ws → c.Inside ws := by
  have hturn {c : Chats} {i : Nat} {req : Request} {op : Op}
      {resume : op.Answer → Endpoint Unit}
      (htask : c.requests.tasks[i]? = some (req, .await op resume))
      (hop : ∀ row, op ≠ .commit (.delete row)) : c.Admits (.request (.resume i)) := by
    intro req' op' resume' hi row heq
    cases htask.symm.trans hi
    exact absurd heq (hop row)
  have hjoin {c : Chats} {ws : Socket} {userId : String} {choice : Option Socket}
      (hws : c.sockets.handlers[ws]? = some ⟨userId, .receiving⟩) (hmember : c.IsMember "1" userId) :
      c.Admits (.socket (.received ws (.joinChat "1") choice)) := by
    intro userId' hws' _
    cases hws.symm.trans hws'
    exact hmember
  have hstart : system.Reached Admits twoUsers := .init ⟨rfl, ⟨rfl, rfl⟩, rfl⟩
  have hrequest := hstart.step
    (a := Event.request (.start (.createChat "a" { memberIds := ["b"] } "1"))) trivial rfl
  have hselected := hrequest.step (a := Event.request (.resume 0)) (hturn rfl nofun) rfl
  have hflushed := hselected.step (a := Event.request (.resume 0)) (hturn rfl nofun) rfl
  have hcreated := hflushed.step (a := Event.request (.resume 0)) (hturn rfl nofun) rfl
  have hfirst := (hcreated.step (a := Event.socket (.connect "a")) trivial rfl).step
    (a := Event.socket (.accepted 0 true)) trivial rfl
  have hsecond := (hfirst.step (a := Event.socket (.connect "b")) trivial rfl).step
    (a := Event.socket (.accepted 1 true)) trivial rfl
  have hroom := hsecond.step (a := Event.socket (.received 0 (.joinChat "1") none))
    (hjoin rfl (List.cons_ne_nil _ _)) rfl
  exact ⟨_, rfl, inside_of_admits hroom (hjoin rfl (List.cons_ne_nil _ _)) rfl⟩

/-- One who is not a member joins the room before the only member does. -/
def stranger : List Event :=
  [.request (.start (.createChat "a" {} "1")), .request (.resume 0), .request (.resume 0),
    .request (.resume 0), .socket (.connect "a"), .socket (.accepted 0 true),
    .socket (.connect "b"), .socket (.accepted 1 true), .socket (.received 1 (.joinChat "1") none)]

/-- The stranger is told of the member. -/
theorem not_inside : ¬ ∀ c c' a, system.Reachable c → system.step c (.socket a) c' →
    ∀ ws, a.socket = some ws → c'.Inside ws := by
  intro h
  have hrun : ∃ c c', stranger.foldlM next twoUsers = some c ∧
      c.next (.socket (.received 0 (.joinChat "1") (some 1))) = some c' ∧
      (∃ x, c'.sockets.handlers[0]? = some ⟨"a", .sending x .receive⟩ ∧
        x.target = .room "1" ∧ x.current = 1) ∧
      c'.sockets.handlers[1]? = some ⟨"b", .receiving⟩ ∧ c'.requests.shared.rows "1" "b" = [] :=
    ⟨_, _, rfl, rfl, ⟨_, rfl, rfl, rfl⟩, rfl, by decide⟩
  obtain ⟨c, c', hrun, hnext, ⟨x, hsender, htarget, hcurrent⟩, hrecipient, hrows⟩ := hrun
  have hreached : system.Reachable c :=
    .foldlM (.init ⟨rfl, ⟨rfl, rfl⟩, rfl⟩) (fun _ _ _ hstep => hstep) hrun
  obtain ⟨-, ⟨recipient, hhandler, hmember⟩, -⟩ :=
    h c c' _ hreached hnext 0 rfl _ x .receive hsender rfl "1" htarget
  rw [hcurrent, hrecipient] at hhandler
  obtain rfl := Option.some.inj hhandler
  exact hmember hrows

end Chats

end WebSocket

end Backend

end MessengerClient
