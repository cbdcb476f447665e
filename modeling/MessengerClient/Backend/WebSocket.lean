import MessengerClient.Lib.Dict
import MessengerClient.Lib.Runs
import Mathlib.Data.Finset.Basic
import Mathlib.Data.Finset.Card

/-!
# MessengerClient.Backend.WebSocket

`backend/app/websocket`: the manager of the open sockets, and the handlers that share it.

A handler runs from one await to the next at once; in between, others change the sets that
it iterates over.  A set is iterated in an order of its own, so the socket that comes next
is chosen by the run.  An iteration whose set has another size than at its start raises;
where the size is the same and the content is not, any socket may come next, or none.
What a log says is left out, and so are tokens that do not verify: they change nothing.
-/

namespace MessengerClient

namespace Backend

namespace WebSocket

/-- The number of a connection. -/
abbrev Socket := Nat

/-! ## ConnectionManager -/

/-- A set object, with its members and how often they have changed. -/
structure SocketSet where
  object : Nat
  members : Finset Socket := ∅
  changes : Nat := 0
deriving DecidableEq

namespace SocketSet

variable (set : SocketSet)

def add (ws : Socket) : SocketSet :=
  if ws ∈ set.members then set
  else { set with members := insert ws set.members, changes := set.changes + 1 }

/-- `set -= gone`. -/
def subtract (gone : Finset Socket) : SocketSet :=
  if set.members ∩ gone = ∅ then set
  else { set with members := set.members \ gone, changes := set.changes + 1 }

def discard (ws : Socket) : SocketSet := set.subtract {ws}

end SocketSet

/-- The set that is iterated over: the sockets of a user, or those in a room. -/
inductive Target where
  | user (userId : String)
  | room (roomId : String)
deriving DecidableEq, Repr

structure ConnectionManager where
  connections : Dict String SocketSet := []
  userConnections : Dict String SocketSet := []
  /-- The set objects from here on are not made yet. -/
  nextObject : Nat := 0
deriving DecidableEq

namespace ConnectionManager

variable (m : ConnectionManager)

def find : Target → Option SocketSet
  | .user userId => Dict.find? m.userConnections userId
  | .room roomId => Dict.find? m.connections roomId

/-- The socket is added to the set under a key, a new one if the key is not there. -/
def addTo (d : Dict String SocketSet) (key : String) (ws : Socket) : Dict String SocketSet :=
  Dict.set d key (((Dict.find? d key).getD { object := m.nextObject }).add ws)

/-- `connect`, after the socket is accepted. -/
def connect (ws : Socket) (userId : String) : ConnectionManager :=
  { m with
    userConnections := m.addTo m.userConnections userId ws
    nextObject := m.nextObject + 1 }

def disconnect (ws : Socket) (userId : String) : ConnectionManager :=
  let userConnections :=
    match Dict.find? m.userConnections userId with
    | some set =>
        if (set.discard ws).members = ∅ then Dict.erase m.userConnections userId
        else Dict.set m.userConnections userId (set.discard ws)
    | none => m.userConnections
  { m with
    userConnections := userConnections
    connections := Dict.mapValues m.connections (·.discard ws) }

def joinRoom (ws : Socket) (roomId : String) : ConnectionManager :=
  { m with
    connections := m.addTo m.connections roomId ws
    nextObject := m.nextObject + 1 }

def leaveRoom (ws : Socket) (roomId : String) : ConnectionManager :=
  match Dict.find? m.connections roomId with
  | some set => { m with connections := Dict.set m.connections roomId (set.discard ws) }
  | none => m

/-- `self._user_connections[user_id] -= dead`, `self._connections[room_id] -= dead`. -/
def subtractDead (target : Target) (dead : Finset Socket) : ConnectionManager :=
  match m.find target, target with
  | some set, .user userId =>
      { m with userConnections := Dict.set m.userConnections userId (set.subtract dead) }
  | some set, .room roomId =>
      { m with connections := Dict.set m.connections roomId (set.subtract dead) }
  | none, _ => m

def getOnlineUsers : List String := Dict.keys m.userConnections

def isOnline (userId : String) : Bool :=
  (Dict.find? m.userConnections userId).any fun set => 0 < set.members.card

end ConnectionManager

/-! ## send_personal and broadcast_to_room -/

/-- A message to a client. -/
inductive Message where
  | userJoined (userId : String)
  | userLeft (userId : String)
  | typing (userId chatId : String)
  | readReceipt (userId chatId messageId : String)
  | presence (userId status : String)
deriving DecidableEq, Repr

/-- The loop of `send_personal` or of `broadcast_to_room`, and the socket it sends to. -/
structure Sending where
  target : Target
  message : Message
  exclude : Option Socket
  /-- The set when the loop began. -/
  source : SocketSet
  /-- The sockets that it has sent to before, and those of them that failed. -/
  visited : Finset Socket := ∅
  dead : Finset Socket := ∅
  current : Socket
deriving DecidableEq

/-- How a loop goes on after an await: to another socket, to its end, or it raises. -/
inductive Outcome where
  | sending (s : Sending)
  | finished (dead : Finset Socket)
  | raised
deriving DecidableEq

namespace ConnectionManager

variable (m : ConnectionManager)

/-- The loop begins: with a socket of the set, or it is over when there is none to send to. -/
def send (target : Target) (message : Message) (exclude : Option Socket) :
    Option Socket → Option Outcome
  | some ws => do
      let set ← m.find target
      if ws ∈ set.members ∧ exclude ≠ some ws then
        some (.sending { target, message, exclude, source := set, current := ws })
      else none
  | none =>
      match m.find target with
      | some set => if ∀ ws ∈ set.members, exclude = some ws then some (.finished ∅) else none
      | none => some (.finished ∅)

/-- The current socket was sent to, and the loop looks for the next one. -/
def resume (s : Sending) (ok : Bool) (choice : Option Socket) : Option Outcome :=
  let visited := insert s.current s.visited
  let dead := if ok then s.dead else insert s.current s.dead
  match m.find s.target with
  | none => if choice = none then some .raised else none
  | some set =>
      if set.object ≠ s.source.object ∨ set.members.card ≠ s.source.members.card then
        if choice = none then some .raised else none
      else
        match choice with
        | some ws =>
            if ws ∈ set.members ∧ s.exclude ≠ some ws ∧
                (set.changes = s.source.changes → ws ∉ visited) then
              some (.sending { s with visited, dead, current := ws })
            else none
        | none =>
            if set.changes = s.source.changes →
                ∀ ws ∈ set.members, ws ∈ visited ∨ s.exclude = some ws then
              some (.finished dead)
            else none

end ConnectionManager

/-! ## websocket_endpoint -/

/-- What a handler does after a loop of sends: it receives again, or its client is gone and
other rooms are still to be told. -/
inductive Rest where
  | receive
  | leaving (rooms : List String)
deriving DecidableEq, Repr

/-- The await that a handler is at. -/
inductive Stage where
  | accepting
  | receiving
  | sending (s : Sending) (rest : Rest)
  | ponging
  | closed
deriving DecidableEq

structure Handler where
  userId : String
  stage : Stage := .accepting
deriving DecidableEq

/-- What `receive_json` gives: an event, where a missing id is an empty one, anything that
the handler raises an exception on, or `WebSocketDisconnect`. -/
inductive Received where
  | joinChat (chatId : String)
  | leaveChat (chatId : String)
  | typing (chatId : String)
  | readReceipt (chatId messageId : String)
  | presence (status : String)
  | ping
  | other
  | malformed
  | disconnected
deriving DecidableEq, Repr

/-- How an await of the handler's own socket ends. -/
inductive Reply where
  | ok
  | failed
  | disconnected
deriving DecidableEq, Repr

structure Server where
  manager : ConnectionManager := {}
  /-- The handler of each socket. -/
  handlers : List Handler := []
  /-- The sets whose iteration has raised. -/
  raised : List Target := []
deriving DecidableEq

inductive Action where
  | connect (userId : String)
  | accepted (ws : Socket) (ok : Bool)
  | received (ws : Socket) (event : Received) (choice : Option Socket)
  | sent (ws : Socket) (ok : Bool) (choice later : Option Socket)
  | ponged (ws : Socket) (reply : Reply) (choice : Option Socket)
deriving DecidableEq, Repr

namespace Server

variable (s : Server)

def stage (ws : Socket) : Option Stage := s.handlers[ws]?.map Handler.stage

def setStage (ws : Socket) (stage : Stage) : Server :=
  { s with handlers := s.handlers.modify ws fun h => { h with stage } }

/-- `for room_id in list(manager._connections.keys())`: the rooms are told, one after the
other, from the first one that holds a socket. -/
def leaveRooms (ws : Socket) (userId : String) : List String → Option Socket → Option Server
  | [], choice => if choice = none then some (s.setStage ws .closed) else none
  | room :: rooms, choice =>
      if (s.manager.find (.room room)).all (·.members = ∅) then leaveRooms ws userId rooms choice
      else
        match s.manager.send (.room room) (.userLeft userId) none choice with
        | some (.sending sending) => some (s.setStage ws (.sending sending (.leaving rooms)))
        | _ => none

/-- The client is gone. -/
def disconnected (ws : Socket) (userId : String) (choice : Option Socket) : Option Server :=
  let s := { s with manager := s.manager.disconnect ws userId }
  s.leaveRooms ws userId (Dict.keys s.manager.connections) choice

/-- `except Exception`. -/
def failed (ws : Socket) (userId : String) : Server :=
  { s with manager := s.manager.disconnect ws userId }.setStage ws .closed

/-- A loop of sends begins. -/
def send (ws : Socket) (target : Target) (message : Message) (exclude choice : Option Socket) :
    Option Server :=
  match s.manager.send target message exclude choice with
  | some (.sending sending) => some (s.setStage ws (.sending sending .receive))
  | some (.finished _) => some (s.setStage ws .receiving)
  | _ => none

/-- An event is received. -/
def received (ws : Socket) (userId : String) (event : Received) (choice : Option Socket) :
    Option Server :=
  match event with
  | .joinChat chatId =>
      if chatId = "" then some s
      else
        { s with manager := s.manager.joinRoom ws chatId }.send ws (.room chatId)
          (.userJoined userId) (some ws) choice
  | .leaveChat chatId =>
      if chatId = "" then some s
      else
        { s with manager := s.manager.leaveRoom ws chatId }.send ws (.room chatId)
          (.userLeft userId) none choice
  | .typing chatId =>
      if chatId = "" then some s
      else s.send ws (.room chatId) (.typing userId chatId) (some ws) choice
  | .readReceipt chatId messageId =>
      if chatId = "" ∨ messageId = "" then some s
      else s.send ws (.room chatId) (.readReceipt userId chatId messageId) (some ws) choice
  | .presence status => s.send ws (.user userId) (.presence userId status) none choice
  | .ping => some (s.setStage ws .ponging)
  | .other => some s
  | .malformed => some (s.failed ws userId)
  | .disconnected => s.disconnected ws userId choice

/-- A loop of sends goes on. -/
def sent (ws : Socket) (userId : String) (sending : Sending) (rest : Rest) (ok : Bool)
    (choice later : Option Socket) : Option Server :=
  match s.manager.resume sending ok choice, rest with
  | some (.sending next), rest => some (s.setStage ws (.sending next rest))
  | some (.finished dead), .receive =>
      some ({ s with manager := s.manager.subtractDead sending.target dead }.setStage ws .receiving)
  | some (.finished dead), .leaving rooms =>
      { s with manager := s.manager.subtractDead sending.target dead }.leaveRooms ws userId rooms
        later
  | some .raised, .receive =>
      some ({ s with raised := s.raised ++ [sending.target] }.failed ws userId)
  | some .raised, .leaving _ =>
      some ({ s with raised := s.raised ++ [sending.target] }.setStage ws .closed)
  | none, _ => none

def ponged (ws : Socket) (userId : String) (reply : Reply) (choice : Option Socket) :
    Option Server :=
  match reply with
  | .ok => some (s.setStage ws .receiving)
  | .failed => some (s.failed ws userId)
  | .disconnected => s.disconnected ws userId choice

def next : Action → Option Server
  | .connect userId => some { s with handlers := s.handlers ++ [{ userId }] }
  | .accepted ws ok =>
      match s.handlers[ws]? with
      | some ⟨userId, .accepting⟩ =>
          if ok then
            some ({ s with manager := s.manager.connect ws userId }.setStage ws .receiving)
          else some (s.setStage ws .closed)
      | _ => none
  | .received ws event choice =>
      match s.handlers[ws]? with
      | some ⟨userId, .receiving⟩ => s.received ws userId event choice
      | _ => none
  | .sent ws ok choice later =>
      match s.handlers[ws]? with
      | some ⟨userId, .sending sending rest⟩ => s.sent ws userId sending rest ok choice later
      | _ => none
  | .ponged ws reply choice =>
      match s.handlers[ws]? with
      | some ⟨userId, .ponging⟩ => s.ponged ws userId reply choice
      | _ => none

end Server

/-- Any number of clients, in any order. -/
def system : System Server Action where
  init s := s = {}
  step s a s' := s.next a = some s'

end WebSocket

end Backend

end MessengerClient
