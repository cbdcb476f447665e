import MessengerClient.Backend.MessageService
import MessengerClient.Lib.Newest
import Mathlib

/-!
# MessengerClient.Backend.Messages.Paging

The pages of a chat, as `list_messages` of `backend/app/api/messages.py` cuts them out of the
messages with the last one first.

Messages that are committed between two pages take the others to later places, whatever dates they
have, so what was not on a page yet is on a later one, and a page that is short was the last
(`listMessages_pages`).
-/

namespace MessengerClient

namespace Backend

open MessageService

/-- `Query(50, ge=1, le=200)`. -/
structure Limit where
  val : Nat
  pos : 1 ≤ val
  le : val ≤ 200

/-- The tables, with the dates of messages. -/
structure Archive where
  database : Database := {}
  messages : List TimedMessage := []

/-- What a request has changed when it commits. -/
inductive Committed where
  | send (message : TimedMessage)
  | edit (messageId : String) (req : UpdateMessageRequest)
  | delete (messageId : String)
  | membership (database : Database)

namespace Archive

variable (a : Archive)

/-- The tables without the dates. -/
def board : Board where
  database := a.database
  messages := a.messages.map TimedMessage.toMessage

def update (messageId : String) (change : Message → Message) : Archive :=
  { a with
    messages := a.messages.map fun m =>
      if m.id = messageId then ⟨change m.toMessage, m.createdAt⟩ else m }

/-- A commit; a key that is there already raises, and nothing is changed. -/
def commit : Committed → Archive
  | .send message =>
    if message.id ∈ a.messages.map (·.id) then a
    else { a with messages := a.messages ++ [message] }
  | .edit messageId req => a.update messageId (·.edited req.content)
  | .delete messageId => a.update messageId Message.deleted
  | .membership database => { a with database }

/-- `select(Message)`, ordered by `created_at.desc()`, with an offset and a limit. -/
def selectMessages (chatId : String) (offset limit : Nat) : List TimedMessage :=
  ((newestFirst TimedMessage.createdAt (a.messages.filter (·.chatId = chatId))).drop offset).take
    limit

/-- `list_messages`; the answer has the dates as texts. -/
def listMessages (currentUser chatId : String) (offset : Nat) (limit : Limit) :
    Except Failure (List TimedMessage) := do
  a.database.getCurrentUser currentUser
  match ← a.database.findMembership chatId currentUser with
  | none => .error (.http 403 "Not a member")
  | some _ => .ok (a.selectMessages chatId offset limit.val).reverse

end Archive

/-! ## Reading all pages -/

/-- The tables, and the pages that were read. -/
structure Reading where
  archive : Archive
  pages : List (List TimedMessage) := []

inductive ReadingAction where
  | page
  | commit (commit : Committed)

namespace Reading

/-- The last page was short. -/
def Done (limit : Limit) (s : Reading) : Prop :=
  ∃ page, s.pages.getLast? = some page ∧ page.length < limit.val

/-- A user reads one page after the other until one is short, while others commit. -/
def system (currentUser chatId : String) (limit : Limit) (start : Archive) :
    System Reading ReadingAction where
  init s := s = { archive := start }
  step s action s' :=
    match action with
    | .page => ¬s.Done limit ∧ ∃ page,
        s.archive.listMessages currentUser chatId (limit.val * s.pages.length) limit = .ok page ∧
          s' = { s with pages := s.pages ++ [page] }
    | .commit commit => s' = { s with archive := s.archive.commit commit }

/-- A message of the chat has a date that no other has. -/
def Dated (chatId : String) (s : Reading) : ReadingAction → Prop
  | .commit (.send message) => message.chatId = chatId →
      ∀ m ∈ s.archive.messages, m.chatId = chatId → m.createdAt ≠ message.createdAt
  | _ => True

end Reading

/-! ## Commits -/

/-- What no commit changes of a message. -/
def stamp (message : TimedMessage) : String × Nat := (message.id, message.createdAt)

namespace Archive

/-- The stamps of a chat. -/
def stamps (a : Archive) (chatId : String) : List (String × Nat) :=
  (a.messages.filter (·.chatId = chatId)).map stamp

variable {a : Archive} {chatId currentUser : String} {offset : Nat} {limit : Limit}

/-- The messages of a chat have their dates for themselves. -/
def Apart (a : Archive) (chatId : String) : Prop := ((a.stamps chatId).map Prod.snd).Nodup

theorem map_toMessage_update (messageId : String) (change : Message → Message) :
    (a.update messageId change).board = a.board.update messageId change := by
  simp only [board, update, Board.update, List.map_map]
  congr 1
  refine List.map_congr_left fun m _ => ?_
  simp only [Function.comp_apply]
  split <;> rfl

/-- **What an endpoint does** to the tables is a commit. -/
theorem exists_commit (hnodup : (a.messages.map (·.id)).Nodup) (createdAt : Nat)
    {req : MessageRequest} {b : Board} (h : a.board.answer req = .ok b) :
    ∃ commit, (a.commit commit).board = b := by
  have hkeys : a.board.messages.map Message.id = a.messages.map (·.id) := List.map_map
  have hnodup' : (a.board.messages.map Message.id).Nodup := hkeys ▸ hnodup
  cases req with
  | membership req =>
    rw [Board.answer] at h
    cases hanswer : a.board.database.answer req with
    | error e =>
      rw [hanswer] at h
      cases h
    | ok database =>
      rw [hanswer] at h
      obtain rfl := Except.ok.inj h
      exact ⟨.membership database, rfl⟩
  | send currentUser chatId req messageId =>
    obtain ⟨hnew, m, hid, -, rfl⟩ := Board.sendMessage_eq_ok h
    refine ⟨.send ⟨m, createdAt⟩, ?_⟩
    rw [hkeys, ← hid] at hnew
    rw [commit, if_neg hnew, board, List.map_append]
    rfl
  | edit currentUser messageId req =>
    obtain ⟨-, -, rfl⟩ := (Board.changeOwn_eq_ok_iff hnodup').mp h
    exact ⟨.edit messageId req, map_toMessage_update _ _⟩
  | delete currentUser messageId =>
    obtain ⟨-, -, rfl⟩ := (Board.changeOwn_eq_ok_iff hnodup').mp h
    exact ⟨.delete messageId, map_toMessage_update _ _⟩

theorem stamps_update {change : Message → Message} (hid : ∀ m, (change m).id = m.id)
    (hchat : ∀ m, (change m).chatId = m.chatId) (messageId chatId : String) :
    (a.update messageId change).stamps chatId = a.stamps chatId := by
  simp only [stamps, update, List.filter_map, List.map_map]
  refine congrArg₂ List.map (funext fun m => ?_) (List.filter_congr fun m _ => ?_)
  · simp only [Function.comp_apply]
    split <;> simp [stamp, hid]
  · simp only [Function.comp_apply]
    split <;> simp [hchat]

/-- **A commit** leaves the stamps of a chat as they were, or adds one. -/
theorem stamps_commit (a : Archive) (chatId : String) (commit : Committed) :
    (a.commit commit).stamps chatId = a.stamps chatId ∨
      ∃ message, commit = .send message ∧ message.chatId = chatId ∧
        (a.commit commit).stamps chatId = a.stamps chatId ++ [stamp message] := by
  cases commit with
  | send message =>
    rw [Archive.commit]
    split
    · exact .inl rfl
    · by_cases hchat : message.chatId = chatId
      · exact .inr ⟨message, rfl, hchat, by simp [stamps, hchat]⟩
      · exact .inl (by simp [stamps, hchat])
  | edit messageId req =>
    have hid (m : Message) : (m.edited req.content).id = m.id := rfl
    exact .inl (stamps_update hid (fun _ => rfl) _ _)
  | delete messageId =>
    have hid (m : Message) : m.deleted.id = m.id := rfl
    exact .inl (stamps_update hid (fun _ => rfl) _ _)
  | membership database => exact .inl rfl

theorem Apart.commit (h : a.Apart chatId) {commit : Committed}
    (hdated : Reading.Dated chatId { archive := a } (.commit commit)) :
    (a.commit commit).Apart chatId := by
  obtain hsame | ⟨message, rfl, hchat, hadd⟩ := stamps_commit a chatId commit
  · rwa [Apart, hsame]
  · rw [Apart, hadd, List.map_append, List.nodup_append]
    refine ⟨h, List.nodup_singleton _, ?_⟩
    rintro date hdate date' hdate' rfl
    rw [stamps, List.map_map] at hdate
    obtain ⟨m, hm, rfl⟩ := List.mem_map.mp hdate
    obtain ⟨hm, hmchat⟩ := List.mem_filter.mp hm
    refine hdated hchat m hm (of_decide_eq_true hmchat) ?_
    simpa [stamp] using hdate'

/-! ## A page -/

theorem listMessages_eq_ok {page : List TimedMessage}
    (h : a.listMessages currentUser chatId offset limit = .ok page) :
    page = (a.selectMessages chatId offset limit.val).reverse := by
  obtain ⟨-, h⟩ := (Database.getCurrentUser_bind _ _).mp h
  obtain ⟨membership, -, h⟩ := Database.findMembership_bind h
  cases membership with
  | none => cases h
  | some membership => exact (Except.ok.inj h).symm

/-- The stamps of a page are a page of the stamps. -/
theorem map_stamp_selectMessages (a : Archive) (chatId : String) (offset limit : Nat) :
    (a.selectMessages chatId offset limit).map stamp =
      ((newestFirst Prod.snd (a.stamps chatId)).drop offset).take limit := by
  rw [selectMessages, List.map_take, List.map_drop, newestFirst, List.map_mergeSort]
  · rfl
  · exact fun _ _ _ _ => rfl

theorem pairwise_selectMessages (h : a.Apart chatId) (offset limit : Nat) :
    (a.selectMessages chatId offset limit).reverse.Pairwise fun m m' =>
      m.createdAt < m'.createdAt := by
  rw [List.pairwise_reverse]
  refine (pairwise_newestFirst ?_).sublist
    ((List.take_sublist _ _).trans (List.drop_sublist _ _))
  rwa [Apart, stamps, List.map_map] at h

end Archive

/-! ## All pages -/

namespace Reading

variable {s s' : Reading} {currentUser chatId : String} {limit : Limit} {start : Archive}
  {action : ReadingAction}

/-- A message is on one of the pages. -/
def Yielded (s : Reading) (x : String × Nat) : Prop := ∃ page ∈ s.pages, x ∈ page.map stamp

/-- What holds while pages are read: a message that was there is on a page or behind all of them. -/
structure Inv (chatId : String) (limit : Limit) (start : Archive) (s : Reading) : Prop where
  apart : s.archive.Apart chatId
  grown : start.stamps chatId <+: s.archive.stamps chatId
  sorted : ∀ page ∈ s.pages, page.Pairwise fun m m' => m.createdAt < m'.createdAt
  found : ∀ x ∈ start.stamps chatId, s.Yielded x ∨
    ¬s.Done limit ∧ limit.val * s.pages.length ≤ greater Prod.snd (s.archive.stamps chatId) x
  whole : s.archive.stamps chatId = start.stamps chatId →
    s.pages.reverse.flatten.map stamp =
      ((newestFirst Prod.snd (start.stamps chatId)).take (limit.val * s.pages.length)).reverse
  full : s.archive.stamps chatId = start.stamps chatId → s.Done limit →
    (start.stamps chatId).length ≤ limit.val * s.pages.length

theorem inv_init (h : start.Apart chatId) : Inv chatId limit start { archive := start } where
  apart := h
  grown := List.prefix_refl _
  sorted := by simp
  found := by simp [Done]
  whole := by simp
  full := by simp [Done]

/-- **A commit** keeps what holds. -/
theorem Inv.commit (h : Inv chatId limit start s) {commit : Committed}
    (hdated : s.Dated chatId (.commit commit)) :
    Inv chatId limit start { s with archive := s.archive.commit commit } := by
  have hapart := @Archive.Apart.commit _ _ h.apart commit hdated
  obtain hsame | ⟨message, -, -, hadd⟩ := s.archive.stamps_commit chatId commit
  · constructor <;> simp only [hsame]
    · exact hapart
    · exact h.grown
    · exact h.sorted
    · exact h.found
    · exact h.whole
    · exact h.full
  · have hne : (s.archive.commit commit).stamps chatId ≠ start.stamps chatId := by
      intro heq
      have hle := h.grown.length_le
      rw [← heq, hadd, List.length_append, List.length_singleton] at hle
      omega
    refine ⟨hapart, ?_, h.sorted, fun x hx => ?_, fun heq => absurd heq hne,
      fun heq => absurd heq hne⟩
    · rw [hadd]
      exact h.grown.trans (List.prefix_append _ _)
    · refine (h.found x hx).imp_right fun hbehind => ⟨hbehind.1, hbehind.2.trans ?_⟩
      rw [hadd]
      exact greater_le_of_sublist (List.sublist_append_left _ _)

theorem done_append (s : Reading) (page : List TimedMessage) :
    Done limit { s with pages := s.pages ++ [page] } ↔ page.length < limit.val := by
  simp [Done]

/-- **A page** keeps what holds. -/
theorem Inv.page (h : Inv chatId limit start s) :
    Inv chatId limit start { s with
      pages := s.pages ++
        [(s.archive.selectMessages chatId (limit.val * s.pages.length) limit.val).reverse] } := by
  have hstamps := s.archive.map_stamp_selectMessages chatId (limit.val * s.pages.length) limit.val
  have hlength : (s.archive.selectMessages chatId (limit.val * s.pages.length) limit.val).length =
      min limit.val ((s.archive.stamps chatId).length - limit.val * s.pages.length) := by
    rw [← List.length_map (f := stamp), hstamps, List.length_take, List.length_drop,
      length_newestFirst]
  have hcount : limit.val * (s.pages.length + 1) = limit.val * s.pages.length + limit.val := by
    rw [Nat.mul_add, Nat.mul_one]
  refine ⟨h.apart, h.grown, ?_, fun x hx => ?_, fun heq => ?_, fun heq hdone => ?_⟩
  · intro page hpage
    obtain hold | hnew := List.mem_append.mp hpage
    · exact h.sorted page hold
    · rw [List.mem_singleton.mp hnew]
      exact Archive.pairwise_selectMessages h.apart _ _
  · obtain ⟨page, hpage, hx'⟩ | ⟨-, hbehind⟩ := h.found x hx
    · exact .inl ⟨page, List.mem_append_left _ hpage, hx'⟩
    · have hmem : x ∈ s.archive.stamps chatId := h.grown.subset hx
      by_cases hon : greater Prod.snd (s.archive.stamps chatId) x <
          limit.val * s.pages.length + limit.val
      · refine .inl ⟨_, List.mem_append_right _ (List.mem_singleton_self _), ?_⟩
        rw [List.map_reverse, List.mem_reverse, hstamps]
        exact (mem_page_iff h.apart hmem).mpr ⟨hbehind, hon⟩
      · -- the page is full, for this message is behind it
        have hlt := @greater_lt_length _ _ _ Prod.snd _ _ hmem
        refine .inr ⟨?_, ?_⟩
        · rw [done_append, List.length_reverse, hlength]
          omega
        · rw [List.length_append, List.length_singleton, hcount]
          exact not_lt.mp hon
  · rw [List.length_append, List.length_singleton, hcount, List.take_add, List.reverse_append,
      List.reverse_append, List.reverse_singleton, List.singleton_append, List.flatten_cons,
      List.map_append, h.whole heq, List.map_reverse, hstamps, heq]
  · rw [done_append, List.length_reverse, hlength, heq] at hdone
    rw [List.length_append, List.length_singleton, hcount]
    omega

theorem Inv.step (h : Inv chatId limit start s) (hdated : s.Dated chatId action)
    (hstep : (system currentUser chatId limit start).step s action s') :
    Inv chatId limit start s' := by
  cases action with
  | page =>
    obtain ⟨-, page, hlist, rfl⟩ := hstep
    rw [Archive.listMessages_eq_ok hlist]
    exact h.page
  | commit commit =>
    obtain rfl := hstep
    exact h.commit hdated

/-- **Paging through a chat loses nothing.**  Pages are in order, a message that was there when the
first one was read is on one of them, and if no message was added they are the whole chat, each
message once and in order. -/
theorem listMessages_pages (currentUser chatId : String) (limit : Limit) (start : Archive)
    (hapart : start.Apart chatId) {s : Reading}
    (h : (system currentUser chatId limit start).Reached (Dated chatId) s) :
    (∀ page ∈ s.pages, page.Pairwise fun m m' => m.createdAt < m'.createdAt) ∧
      (s.Done limit → ∀ m ∈ start.messages, m.chatId = chatId →
        ∃ page ∈ s.pages, ∃ m' ∈ page, m'.id = m.id) ∧
      (s.Done limit → s.archive.stamps chatId = start.stamps chatId →
        (s.pages.reverse.flatten.map stamp).Perm (start.stamps chatId) ∧
          (s.pages.reverse.flatten.map stamp).Pairwise fun x y => x.2 < y.2) := by
  have hinv : Inv chatId limit start s := by
    refine h.invariant ?_ fun _ _ _ hs hdated hstep =>
      hs.step hdated hstep
    rintro s rfl
    exact inv_init hapart
  refine ⟨hinv.sorted, fun hdone m hm hchat => ?_, fun hdone hsame => ?_⟩
  · have hmem : stamp m ∈ start.stamps chatId :=
      List.mem_map_of_mem (List.mem_filter.mpr ⟨hm, decide_eq_true hchat⟩)
    obtain ⟨page, hpage, hmem⟩ | hbehind := hinv.found _ hmem
    · obtain ⟨m', hm', heq⟩ := List.mem_map.mp hmem
      exact ⟨page, hpage, m', hm', congrArg Prod.fst heq⟩
    · exact absurd hdone hbehind.1
  · have hfull : (newestFirst Prod.snd (start.stamps chatId)).length ≤
        limit.val * s.pages.length := by
      rw [length_newestFirst]
      exact hinv.full hsame hdone
    rw [hinv.whole hsame, List.take_of_length_le hfull, List.pairwise_reverse]
    exact ⟨(List.reverse_perm _).trans (newestFirst_perm _), pairwise_newestFirst hapart⟩

/-- A chat with one message. -/
def oneMessage : Archive where
  database := Board.ownChat.database
  messages := [⟨⟨"m", "1", "a", "hi", "text", none, none, false, false⟩, 7⟩]

theorem oneMessage_listMessages : oneMessage.listMessages "a" "1" 0 ⟨50, by decide, by decide⟩ =
    .ok oneMessage.messages := by
  have hselect : oneMessage.selectMessages "1" 0 50 = oneMessage.messages := by
    simp [Archive.selectMessages, oneMessage, newestFirst]
  have hlist : oneMessage.listMessages "a" "1" 0 ⟨50, by decide, by decide⟩ =
    .ok (oneMessage.selectMessages "1" 0 50).reverse := rfl
  rw [hlist, hselect]
  rfl

/-- One page is read. -/
theorem oneMessage_reached :
    (system "a" "1" ⟨50, by decide, by decide⟩ oneMessage).Reached (Dated "1")
      { archive := oneMessage, pages := [oneMessage.messages] } := by
  refine .step (a := .page) (.init rfl) trivial ⟨?_, _, oneMessage_listMessages, rfl⟩
  simp [Done]

theorem listMessages_pages_oneMessage :
    ([oneMessage.messages].reverse.flatten.map stamp).Perm (oneMessage.stamps "1") :=
  ((listMessages_pages "a" "1" ⟨50, by decide, by decide⟩ oneMessage (List.nodup_singleton _)
    oneMessage_reached).2.2 ⟨_, rfl, by decide⟩ rfl).1

end Reading

end Backend

end MessengerClient
