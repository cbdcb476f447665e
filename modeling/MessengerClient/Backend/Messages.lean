import MessengerClient.Backend.Memberships

/-!
# MessengerClient.Backend.Messages

The messages of chats, as the endpoints of `backend/app/api/messages.py` send, edit and
delete them, next to the memberships, which others change in between.

`created_at` and `updated_at` are left out: only the order of a list depends on them.
-/

namespace MessengerClient

namespace Backend

/-! ## The table -/

structure Message where
  id : String
  chatId : String
  senderId : String
  content : String
  messageType : String
  mediaUrl : Option String
  replyToId : Option String
  isEdited : Bool := false
  isDeleted : Bool := false
deriving DecidableEq, Repr

/-- The values of `MessageType`; a commit of any other raises. -/
def messageTypes : List String :=
  ["text", "photo", "video", "audio", "document", "sticker", "system"]

structure SendMessageRequest where
  content : String
  messageType : String := "text"
  mediaUrl : Option String := none
  replyToId : Option String := none
deriving DecidableEq, Repr

structure UpdateMessageRequest where
  content : String
deriving DecidableEq, Repr

/-- What a deleted message says. -/
def tombstone : String := "Message deleted"

namespace Message

def edited (msg : Message) (content : String) : Message :=
  { msg with content := content, isEdited := true }

def deleted (msg : Message) : Message := { msg with isDeleted := true, content := tombstone }

end Message

structure Board where
  database : Database := {}
  messages : List Message := []
deriving DecidableEq, Repr

namespace Board

variable (b : Board)

def findMessage (messageId : String) : Except Failure (Option Message) :=
  scalarOneOrNone (b.messages.filter (·.id = messageId))

/-- A commit that changes the message under a key. -/
def update (messageId : String) (change : Message → Message) : Board :=
  { b with messages := b.messages.map fun m => if m.id = messageId then change m else m }

/-! ## The endpoints -/

/-- `send_message`; `messageId` is the key that the new message gets. -/
def sendMessage (currentUser chatId : String) (req : SendMessageRequest) (messageId : String) :
    Except Failure Board := do
  b.database.getCurrentUser currentUser
  match ← b.database.findMembership chatId currentUser with
  | none => .error (.http 403 "Not a member")
  | some _ =>
      if req.messageType ∉ messageTypes ∨ messageId ∈ b.messages.map Message.id then
        .error .internal
      else
        .ok { b with
          messages := b.messages ++ [{
            id := messageId, chatId := chatId, senderId := currentUser, content := req.content,
            messageType := req.messageType, mediaUrl := req.mediaUrl,
            replyToId := req.replyToId }] }

/-- A message is changed for its sender, and for no other user. -/
def changeOwn (detail : String) (change : Message → Message) (currentUser messageId : String) :
    Except Failure Board := do
  b.database.getCurrentUser currentUser
  match ← b.findMessage messageId with
  | none => .error (.http 404 "Message not found")
  | some msg =>
      if msg.senderId ≠ currentUser then .error (.http 403 detail)
      else .ok (b.update messageId change)

def editMessage (currentUser messageId : String) (req : UpdateMessageRequest) :
    Except Failure Board :=
  b.changeOwn "Cannot edit others' messages" (·.edited req.content) currentUser messageId

def deleteMessage (currentUser messageId : String) : Except Failure Board :=
  b.changeOwn "Cannot delete others' messages" Message.deleted currentUser messageId

end Board

/-- A request to send, to edit or to delete, or one that changes memberships. -/
inductive MessageRequest where
  | membership (req : Request)
  | send (currentUser chatId : String) (req : SendMessageRequest) (messageId : String)
  | edit (currentUser messageId : String) (req : UpdateMessageRequest)
  | delete (currentUser messageId : String)
deriving DecidableEq, Repr

namespace Board

def answer (b : Board) : MessageRequest → Except Failure Board
  | .membership req => (b.database.answer req).map fun database => { b with database := database }
  | .send currentUser chatId req messageId => b.sendMessage currentUser chatId req messageId
  | .edit currentUser messageId req => b.editMessage currentUser messageId req
  | .delete currentUser messageId => b.deleteMessage currentUser messageId

/-- A request that raises leaves the tables as they were. -/
def settle (b : Board) : Except Failure Board → Board
  | .ok b' => b'
  | .error _ => b

/-- The tables after a request. -/
def handle (b : Board) (req : MessageRequest) : Board := b.settle (b.answer req)

/-- Requests to tables that start with users alone. -/
def system : System Board MessageRequest where
  init b := b.database.chats = [] ∧ b.database.memberships = [] ∧ b.messages = []
  step b req b' := b' = b.handle req

/-! ## Deleted messages -/

/-- Deleted messages are there still, with the text of deleted ones and the mark they had. -/
def DeletedKept (b b' : Board) : Prop :=
  ∀ m ∈ b.messages, m.isDeleted → ∃ m' ∈ b'.messages, m'.id = m.id ∧ m'.isDeleted
    ∧ m'.content = tombstone ∧ m'.isEdited = m.isEdited

/-- The requests that leave deleted messages alone: who changes a message they have sent is
in its chat still, and a deleted message is edited only into what it is. -/
def Guarded (b : Board) : MessageRequest → Prop
  | .edit currentUser messageId req => b.database.isCurrentUser currentUser →
      ∀ m ∈ b.messages, m.id = messageId → m.senderId = currentUser →
        b.database.rows m.chatId currentUser ≠ [] ∧
          (m.isDeleted → req.content = tombstone ∧ m.isEdited)
  | .delete currentUser messageId => b.database.isCurrentUser currentUser →
      ∀ m ∈ b.messages, m.id = messageId → m.senderId = currentUser →
        b.database.rows m.chatId currentUser ≠ []
  | .membership _ | .send _ _ _ _ => True

/-- The invariant: messages have keys, and deleted ones the text of deleted ones. -/
structure Kept (b : Board) : Prop where
  nodup : (b.messages.map Message.id).Nodup
  deleted : ∀ m ∈ b.messages, m.isDeleted → m.content = tombstone

/-! ## What a request does -/

variable {b b' : Board} {currentUser messageId detail : String} {change : Message → Message}

theorem findMessage_eq_some_iff (hnodup : (b.messages.map Message.id).Nodup) {m : Message} :
    b.findMessage messageId = .ok (some m) ↔ m ∈ b.messages ∧ m.id = messageId := by
  rw [findMessage]
  rcases Keys.filter_cases hnodup messageId with ⟨hnone, hfilter⟩ | ⟨m', hm', rfl, hfilter⟩
  · rw [hfilter]
    refine iff_of_false nofun ?_
    rintro ⟨hm, rfl⟩
    exact hnone (List.mem_map_of_mem hm)
  · rw [hfilter]
    constructor
    · rintro ⟨⟩
      exact ⟨hm', rfl⟩
    · rintro ⟨hm, hid⟩
      rw [List.inj_on_of_nodup_map hnodup hm hm' hid]
      rfl

theorem bind_eq_ok {α β : Type} {r : Except Failure α} {f : α → Except Failure β} {c : β} :
    (r >>= f) = .ok c ↔ ∃ a, r = .ok a ∧ f a = .ok c := by
  cases r with
  | error e => exact ⟨nofun, nofun⟩
  | ok a => exact ⟨fun h => ⟨a, rfl, h⟩, fun ⟨_, ha, h⟩ => Except.ok.inj ha ▸ h⟩

/-- A change goes through for the sender of the message alone. -/
theorem changeOwn_eq_ok_iff (hnodup : (b.messages.map Message.id).Nodup) :
    b.changeOwn detail change currentUser messageId = .ok b' ↔
      b.database.isCurrentUser currentUser
        ∧ (∃ m ∈ b.messages, m.id = messageId ∧ m.senderId = currentUser)
        ∧ b' = b.update messageId change := by
  rw [changeOwn, Database.getCurrentUser_bind, bind_eq_ok]
  refine and_congr_right fun _ => ?_
  constructor
  · rintro ⟨msg, hfind, h⟩
    cases msg with
    | none => cases h
    | some msg =>
        dsimp only at h
        split at h
        · cases h
        · next hsender =>
            obtain ⟨hmem, hid⟩ := (findMessage_eq_some_iff hnodup).mp hfind
            exact ⟨⟨msg, hmem, hid, not_not.mp hsender⟩, (Except.ok.inj h).symm⟩
  · rintro ⟨⟨m, hmem, hid, hsender⟩, rfl⟩
    refine ⟨some m, (findMessage_eq_some_iff hnodup).mpr ⟨hmem, hid⟩, ?_⟩
    simp [hsender]

theorem mem_update {m : Message} : m ∈ (b.update messageId change).messages ↔
    ∃ was ∈ b.messages, (if was.id = messageId then change was else was) = m := List.mem_map

@[simp] theorem map_id_update (hid : ∀ m, (change m).id = m.id) :
    (b.update messageId change).messages.map Message.id = b.messages.map Message.id := by
  rw [update, List.map_map]
  refine List.map_congr_left fun m _ => ?_
  simp only [Function.comp_apply]
  split
  · exact hid m
  · rfl

theorem sendMessage_eq_ok {chatId : String} {req : SendMessageRequest}
    (h : b.sendMessage currentUser chatId req messageId = .ok b') :
    messageId ∉ b.messages.map Message.id ∧ ∃ m : Message, m.id = messageId
      ∧ m.isDeleted = false ∧ b' = { b with messages := b.messages ++ [m] } := by
  obtain ⟨-, h⟩ := (Database.getCurrentUser_bind _ _).mp h
  obtain ⟨membership, -, h⟩ := Database.findMembership_bind h
  cases membership with
  | none => cases h
  | some membership =>
      dsimp only at h
      split at h
      · cases h
      · next hnew =>
          rw [not_or] at hnew
          exact ⟨hnew.2, _, rfl, rfl, (Except.ok.inj h).symm⟩

theorem messages_membership (req : Request) :
    (b.handle (.membership req)).messages = b.messages := by
  rw [handle, answer]
  cases b.database.answer req <;> rfl

theorem Kept.update (h : b.Kept) (hid : ∀ m, (change m).id = m.id)
    (hchange : ∀ m ∈ b.messages, m.id = messageId → (change m).isDeleted →
      (change m).content = tombstone) : (b.update messageId change).Kept where
  nodup := by rw [map_id_update hid]; exact h.nodup
  deleted := by
    intro m hm hdeleted
    obtain ⟨was, hwas, rfl⟩ := mem_update.mp hm
    split
    · next hmessage =>
        rw [if_pos hmessage] at hdeleted
        exact hchange was hwas hmessage hdeleted
    · next hmessage =>
        rw [if_neg hmessage] at hdeleted
        exact h.deleted was hwas hdeleted

theorem Kept.handle (h : b.Kept) {req : MessageRequest} (hguarded : b.Guarded req) :
    (b.handle req).Kept := by
  cases req with
  | membership req =>
      constructor
      · rw [messages_membership]
        exact h.nodup
      · rw [messages_membership]
        exact h.deleted
  | send currentUser chatId req messageId =>
      rw [Board.handle, answer]
      cases hsend : b.sendMessage currentUser chatId req messageId with
      | error e => exact h
      | ok b' =>
          obtain ⟨hnew, m, rfl, hnot, rfl⟩ := sendMessage_eq_ok hsend
          constructor
          · rw [settle, List.map_append, List.nodup_append]
            refine ⟨h.nodup, List.nodup_singleton _, ?_⟩
            intro id hid id' hid' heq
            rw [List.map_singleton, List.mem_singleton] at hid'
            exact hnew (hid' ▸ heq ▸ hid)
          · intro m' hm' hdeleted
            cases List.mem_append.mp hm' with
            | inl hold => exact h.deleted m' hold hdeleted
            | inr hadded =>
                rw [List.mem_singleton.mp hadded, hnot] at hdeleted
                cases hdeleted
  | edit currentUser messageId req =>
      rw [Board.handle, answer]
      cases hedit : b.editMessage currentUser messageId req with
      | error e => exact h
      | ok b' =>
          obtain ⟨huser, ⟨m, hm, hmessage, hsender⟩, rfl⟩ := (changeOwn_eq_ok_iff h.nodup).mp hedit
          refine h.update (fun _ => rfl) fun m' hm' hmessage' hdeleted => ?_
          obtain rfl := List.inj_on_of_nodup_map h.nodup hm hm' (hmessage.trans hmessage'.symm)
          exact ((hguarded huser m hm hmessage hsender).2 hdeleted).1
  | delete currentUser messageId =>
      rw [Board.handle, answer]
      cases hdelete : b.deleteMessage currentUser messageId with
      | error e => exact h
      | ok b' =>
          obtain ⟨-, -, rfl⟩ := (changeOwn_eq_ok_iff h.nodup).mp hdelete
          exact h.update (fun _ => rfl) fun _ _ _ _ => rfl

theorem DeletedKept.trans {b'' : Board} (h : DeletedKept b b') (h' : DeletedKept b' b'') :
    DeletedKept b b'' := by
  intro m hm hdeleted
  obtain ⟨m', hm', hid, hdeleted', -, hedited⟩ := h m hm hdeleted
  obtain ⟨m'', hm'', hid', hdeleted'', hcontent, hedited'⟩ := h' m' hm' hdeleted'
  exact ⟨m'', hm'', hid'.trans hid, hdeleted'', hcontent, hedited'.trans hedited⟩

/-- A user, who has a chat of their own. -/
def ownChat : Board where
  database := { users := [⟨"a", true⟩], chats := ["1"], memberships := [⟨"a", "1", .owner⟩] }

end Board

end Backend

end MessengerClient
