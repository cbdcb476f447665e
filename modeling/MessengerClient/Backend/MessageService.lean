import MessengerClient.Backend.Messages

/-!
# MessengerClient.Backend.MessageService

What users have read, as `backend/app/services/message_service.py` keeps it: one receipt
for each message that a user marks, with the time of the mark, and a count of the messages
made since the last mark.

The times of the clock are numbers, and every operation has a later one.
-/

namespace MessengerClient

namespace Backend

namespace MessageService

/-! ## The tables -/

/-- A message with the time it was made. -/
structure TimedMessage extends Message where
  createdAt : Nat
deriving DecidableEq, Repr

structure ReadReceipt where
  userId : String
  messageId : String
  chatId : String
  readAt : Nat
deriving DecidableEq, Repr

/-- What no two receipts share. -/
def ReadReceipt.key (receipt : ReadReceipt) : String × String :=
  (receipt.userId, receipt.messageId)

structure Tables where
  users : List String := []
  chats : List String := []
  messages : List TimedMessage := []
  receipts : List ReadReceipt := []
  /-- The time of the last operation. -/
  clock : Nat := 0
deriving DecidableEq, Repr

/-- A result is consumed by the first look at it: the second one finds no row. -/
structure Result (α : Type) where
  rows : List α
  consumed : Bool := false

namespace Result

variable {α : Type}

def scalarOneOrNone (result : Result α) : Except Failure (Option α × Result α) :=
  if result.consumed then .ok (none, result)
  else (Backend.scalarOneOrNone result.rows).map (·, { result with consumed := true })

end Result

namespace Tables

variable (s : Tables) (now : Nat)

def receiptsOf (userId chatId : String) : List ReadReceipt :=
  s.receipts.filter fun r => r.userId = userId && r.chatId = chatId

/-- `order_by(read_at.desc()).limit(1)`. -/
def latest : List ReadReceipt → Option ReadReceipt
  | [] => none
  | receipt :: rest =>
      match latest rest with
      | none => some receipt
      | some last => if receipt.readAt ≤ last.readAt then some last else some receipt

/-! ## The operations -/

/-- `send_message`; `messageId` is the key that the new message gets. -/
def sendMessage (chatId senderId : String) (req : SendMessageRequest) (messageId : String) :
    Except Failure Tables :=
  if req.messageType ∉ messageTypes ∨ messageId ∈ s.messages.map (·.id) ∨ senderId ∉ s.users
      ∨ chatId ∉ s.chats then
    .error .internal
  else
    .ok { s with
      messages := s.messages ++ [{
        id := messageId, chatId := chatId, senderId := senderId, content := req.content,
        messageType := req.messageType, mediaUrl := req.mediaUrl, replyToId := req.replyToId,
        createdAt := now }] }

/-- A commit of a new receipt: what it names has to be there, and its key has to be new. -/
def insertReceipt (receipt : ReadReceipt) : Except Failure Tables :=
  if receipt.userId ∈ s.users ∧ receipt.messageId ∈ s.messages.map (·.id)
      ∧ receipt.chatId ∈ s.chats ∧ receipt.key ∉ s.receipts.map ReadReceipt.key then
    .ok { s with receipts := s.receipts ++ [receipt] }
  else
    .error .internal

def markRead (userId chatId messageId : String) : Except Failure (Option ReadReceipt × Tables) := do
  let existing : Result ReadReceipt :=
    { rows := s.receipts.filter fun r => r.userId = userId && r.messageId = messageId }
  let (found, existing) ← existing.scalarOneOrNone
  if found.isSome then
    let (again, _) ← existing.scalarOneOrNone
    .ok (again, s)
  else
    let receipt : ReadReceipt :=
      { userId := userId, messageId := messageId, chatId := chatId, readAt := now }
    let s' ← s.insertReceipt receipt
    .ok (some receipt, s')

/-- The messages that are counted as unread. -/
def unreadMessages (userId chatId : String) : List TimedMessage :=
  match latest (s.receiptsOf userId chatId) with
  | none => s.messages.filter (·.chatId = chatId)
  | some receipt => s.messages.filter fun m => m.chatId = chatId && receipt.readAt < m.createdAt

def getUnreadCount (userId chatId : String) : Nat := (s.unreadMessages userId chatId).length

end Tables

inductive Operation where
  | sendMessage (chatId senderId : String) (req : SendMessageRequest) (messageId : String)
  | markRead (userId chatId messageId : String)
  | getUnreadCount (userId chatId : String)
deriving DecidableEq, Repr

namespace Tables

/-- The tables after an operation; one that raises leaves them as they were. -/
def handle (s : Tables) (now : Nat) : Operation → Tables
  | .sendMessage chatId senderId req messageId =>
      match s.sendMessage now chatId senderId req messageId with
      | .ok s' => s'
      | .error _ => s
  | .markRead userId chatId messageId =>
      match s.markRead now userId chatId messageId with
      | .ok (_, s') => s'
      | .error _ => s
  | .getUnreadCount _ _ => s

/-- Operations one after the other, each later than the one before. -/
def system : System Tables (Nat × Operation) where
  init s := s.messages = [] ∧ s.receipts = []
  step s a s' := s.clock < a.1 ∧ s' = { s.handle a.1 a.2 with clock := a.1 }

/-! ## What is read -/

/-- A user has marked a message. -/
def Marked (s : Tables) (userId messageId : String) : Prop :=
  (userId, messageId) ∈ s.receipts.map ReadReceipt.key

/-- At most one receipt for a user and a message. -/
def OneReceipt (s : Tables) : Prop := (s.receipts.map ReadReceipt.key).Nodup

instance (s : Tables) (userId messageId : String) : Decidable (s.Marked userId messageId) :=
  inferInstanceAs (Decidable (_ ∈ _))

instance (s : Tables) : Decidable s.OneReceipt := inferInstanceAs (Decidable (List.Nodup _))

variable {s : Tables} {now : Nat} {userId chatId messageId : String}

/-- A second mark finds the receipt, but does not return it. -/
theorem markRead_of_mem (h : s.OneReceipt) {receipt : ReadReceipt} (hmem : receipt ∈ s.receipts)
    (hkey : receipt.key = (userId, messageId)) (chatId : String) :
    s.markRead now userId chatId messageId = .ok (none, s) := by
  have hone : (s.receipts.filter fun r => r.userId = userId && r.messageId = messageId) =
      [receipt] := by
    rw [← Keys.filter_of_mem h hmem]
    refine List.filter_congr fun r _ => ?_
    rw [hkey]
    simp [ReadReceipt.key]
  rw [markRead]
  simp [hone, Result.scalarOneOrNone, scalarOneOrNone, Except.map, bind, Except.bind]

theorem markRead_of_not_marked (h : ¬ s.Marked userId messageId) (chatId : String) :
    s.markRead now userId chatId messageId =
      (s.insertReceipt ⟨userId, messageId, chatId, now⟩).map
        (some ⟨userId, messageId, chatId, now⟩, ·) := by
  have hnone : (s.receipts.filter fun r => r.userId = userId && r.messageId = messageId) = [] := by
    rw [List.filter_eq_nil_iff]
    intro r hr hsame
    refine h (List.mem_map.mpr ⟨r, hr, ?_⟩)
    simpa [ReadReceipt.key] using hsame
  rw [markRead]
  simp only [hnone, Result.scalarOneOrNone, scalarOneOrNone, Except.map, bind, Except.bind]
  cases s.insertReceipt ⟨userId, messageId, chatId, now⟩ <;> rfl

theorem OneReceipt.insertReceipt {s' : Tables} {receipt : ReadReceipt} (h : s.OneReceipt)
    (hinsert : s.insertReceipt receipt = .ok s') : s'.OneReceipt := by
  rw [Tables.insertReceipt] at hinsert
  split at hinsert
  · next hok =>
      cases hinsert
      rw [OneReceipt, List.map_append, List.nodup_append]
      refine ⟨h, List.nodup_singleton _, ?_⟩
      intro key hold key' hnew heq
      rw [List.map_singleton, List.mem_singleton] at hnew
      exact hok.2.2.2 (hnew ▸ heq ▸ hold)
  · cases hinsert

theorem OneReceipt.handle (h : s.OneReceipt) (now : Nat) (op : Operation) :
    (s.handle now op).OneReceipt := by
  cases op with
  | sendMessage chatId senderId req messageId =>
      rw [Tables.handle]
      split
      · next s' hsend =>
          rw [Tables.sendMessage] at hsend
          split at hsend
          · cases hsend
          · cases hsend
            exact h
      · exact h
  | markRead userId chatId messageId =>
      rw [Tables.handle]
      by_cases hmarked : s.Marked userId messageId
      · obtain ⟨receipt, hmem, hkey⟩ := List.mem_map.mp hmarked
        rw [markRead_of_mem h hmem hkey]
        exact h
      · rw [markRead_of_not_marked hmarked]
        cases hinsert : s.insertReceipt ⟨userId, messageId, chatId, now⟩ with
        | error e => exact h
        | ok s' => exact h.insertReceipt hinsert
  | getUnreadCount userId chatId => exact h

/-- One user and one chat. -/
def start : Tables where
  users := ["a"]
  chats := ["1"]

end Tables

end MessageService

end Backend

end MessengerClient
