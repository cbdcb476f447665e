import MessengerClient.Lib.Runs
import Mathlib.Algebra.Order.Ring.Int

/-!
# MessengerClient.CustomNetwork.WebSocketClient

The connection of `custom_network/websocket_client.cpp`: a socket that is opened with a
token, and a timer that opens it again when it was disconnected.

The socket and the timer are those of Qt.  `open` drops what the socket did before;
`close` ends it later, with `disconnected`; a timer goes off again and again until it
is stopped.  Text messages change nothing here and are left out.
-/

namespace MessengerClient

namespace CustomNetwork

def kMaxReconnectDelay : Int := 30000

inductive SocketState where
  | unconnected
  | connecting
  | connected
  | closing
deriving DecidableEq, Repr

/-- A `QWebSocket`, with the urls it was opened with and the number of them since it
last told how it went. -/
structure QWebSocket where
  state : SocketState := .unconnected
  opens : List String := []
  pending : Nat := 0
deriving DecidableEq, Repr

namespace QWebSocket

def «open» (socket : QWebSocket) (url : String) : QWebSocket where
  state := .connecting
  opens := socket.opens ++ [url]
  pending := socket.pending + 1

def close (socket : QWebSocket) : QWebSocket :=
  if socket.state = .unconnected then socket else { socket with state := .closing }

end QWebSocket

structure WebSocketClient where
  socket : QWebSocket := {}
  url : String := ""
  token : String := ""
  /-- The interval of the timer, while it runs. -/
  reconnectTimer : Option Int := none
  reconnectDelay : Int := 1000
deriving DecidableEq, Repr

namespace WebSocketClient

variable (c : WebSocketClient)

def setUrl (baseUrl : String) : WebSocketClient :=
  { c with url := (baseUrl.replace "http://" "ws://").replace "https://" "wss://" }

def connectToServer (token : String) : WebSocketClient :=
  { c with token := token, socket := c.socket.open (c.url ++ "/ws?token=" ++ token) }

/-- `disconnect`, which is also what `CustomApi::logout` does with its client. -/
def disconnect : WebSocketClient :=
  { c with reconnectTimer := none, socket := c.socket.close }

def onConnected : WebSocketClient := { c with reconnectDelay := 1000 }

def onDisconnected : WebSocketClient :=
  { c with
    reconnectTimer := some c.reconnectDelay
    reconnectDelay := min (c.reconnectDelay * 2) kMaxReconnectDelay }

def onReconnectTimeout : WebSocketClient :=
  if c.token ≠ "" then c.connectToServer c.token else c

/-! ## Events -/

inductive Event where
  | setUrl (baseUrl : String)
  | connectToServer (token : String)
  | disconnect
  | connected
  | disconnected
  | timeout
deriving DecidableEq, Repr

/-- What Qt can deliver. -/
def Enabled : Event → Prop
  | .setUrl _ | .connectToServer _ | .disconnect => True
  | .connected => c.socket.state = .connecting
  | .disconnected => c.socket.state ≠ .unconnected
  | .timeout => c.reconnectTimer.isSome

def handle : Event → WebSocketClient
  | .setUrl baseUrl => c.setUrl baseUrl
  | .connectToServer token => c.connectToServer token
  | .disconnect => c.disconnect
  | .connected =>
      onConnected { c with socket := { c.socket with state := .connected, pending := 0 } }
  | .disconnected =>
      onDisconnected { c with socket := { c.socket with state := .unconnected, pending := 0 } }
  | .timeout => c.onReconnectTimeout

def system : System WebSocketClient Event where
  init c := c = {}
  step c event c' := c.Enabled event ∧ c' = c.handle event

/-- The user of the class does not ask to connect. -/
def Unasked (_ : WebSocketClient) (event : Event) : Prop :=
  match event with
  | .connectToServer _ => False
  | _ => True

/-- The socket is not opened while it is still unknown how the last time went. -/
def Spaced (c : WebSocketClient) (event : Event) : Prop :=
  match event with
  | .connectToServer _ => c.socket.pending = 0
  | .timeout => c.token = "" ∨ c.socket.pending = 0
  | _ => True

/-! ## After a disconnect -/

variable {c} {c' : WebSocketClient}

/-- Nothing is left that could open the socket. -/
def Ended (c : WebSocketClient) : Prop :=
  c.token = "" ∨ (c.socket.state = .unconnected ∧ c.reconnectTimer = none)

theorem ended_disconnect (h : c.socket.state = .unconnected ∨ c.token = "") :
    c.disconnect.Ended := by
  cases h with
  | inl hstate =>
      refine Or.inr ⟨?_, rfl⟩
      simp [disconnect, QWebSocket.close, hstate]
  | inr htoken => exact Or.inl htoken

/-- No event but `connectToServer` opens the socket then. -/
theorem Ended.handle {event : Event} (h : c.Ended) (henabled : c.Enabled event)
    (hunasked : Unasked c event) :
    (c.handle event).Ended ∧ (c.handle event).socket.opens = c.socket.opens := by
  cases event with
  | setUrl baseUrl => exact ⟨h, rfl⟩
  | connectToServer token => exact hunasked.elim
  | disconnect =>
      refine ⟨ended_disconnect (h.symm.imp_left And.left), ?_⟩
      simp only [WebSocketClient.handle, disconnect, QWebSocket.close]
      split <;> rfl
  | connected =>
      refine ⟨?_, rfl⟩
      cases h with
      | inl htoken => exact Or.inl htoken
      | inr hidle => simp [Enabled, hidle.1] at henabled
  | disconnected =>
      refine ⟨?_, rfl⟩
      cases h with
      | inl htoken => exact Or.inl htoken
      | inr hidle => exact absurd hidle.1 henabled
  | timeout =>
      cases h with
      | inl htoken => simp [WebSocketClient.handle, onReconnectTimeout, htoken, Ended]
      | inr hidle => simp [Enabled, hidle.2] at henabled

theorem Ended.after (h : c.Ended) (hrun : (system.startingAt c).Reached Unasked c') :
    c'.socket.opens = c.socket.opens := by
  have hkept : c'.Ended ∧ c'.socket.opens = c.socket.opens := by
    refine hrun.after (fun c' => c'.Ended ∧ c'.socket.opens = c.socket.opens) ⟨h, rfl⟩ ?_
    rintro c₁ event c₂ ⟨hended, hopens⟩ hunasked ⟨henabled, rfl⟩
    obtain ⟨hended', hopens'⟩ := hended.handle henabled hunasked
    exact ⟨hended', hopens'.trans hopens⟩
  exact hkept.2

theorem opens_timeout (htoken : c.token ≠ "") :
    (c.handle .timeout).socket.opens
      = c.socket.opens ++ [c.url ++ "/ws?token=" ++ c.token] := by
  simp [handle, onReconnectTimeout, htoken, connectToServer, QWebSocket.open]

/-- **A socket that still has to end opens again.**  Its end starts the timer. -/
theorem reopens (hstate : c.socket.state ≠ .unconnected) (htoken : c.token ≠ "") :
    ∃ c', (system.startingAt c.disconnect).Reached Unasked c'
      ∧ c'.socket.opens = c.disconnect.socket.opens ++ [c.url ++ "/ws?token=" ++ c.token] := by
  have hclosing : c.disconnect.Enabled .disconnected := by
    simp [Enabled, disconnect, QWebSocket.close, hstate]
  have hstart : (system.startingAt c.disconnect).Reached Unasked c.disconnect := .init rfl
  have hended : (system.startingAt c.disconnect).Reached Unasked
      (c.disconnect.handle .disconnected) :=
    .step (a := .disconnected) hstart trivial ⟨hclosing, rfl⟩
  have htimeout : (system.startingAt c.disconnect).Reached Unasked
      ((c.disconnect.handle .disconnected).handle .timeout) :=
    .step (a := .timeout) hended trivial ⟨rfl, rfl⟩
  exact ⟨_, htimeout, opens_timeout htoken⟩

/-! ## One open at a time -/

theorem pending_handle_iff {event : Event} (h : c.socket.pending ≤ 1) :
    (c.handle event).socket.pending ≤ 1 ↔ c.Spaced event := by
  cases event with
  | setUrl baseUrl => exact iff_of_true h trivial
  | connected => exact iff_of_true (Nat.zero_le 1) trivial
  | disconnected => exact iff_of_true (Nat.zero_le 1) trivial
  | disconnect =>
      refine iff_of_true ?_ trivial
      simp only [handle, disconnect, QWebSocket.close]
      split <;> exact h
  | connectToServer token =>
      simp [handle, connectToServer, QWebSocket.open, Spaced]
  | timeout =>
      by_cases htoken : c.token = ""
      · simp [handle, onReconnectTimeout, htoken, Spaced, h]
      · simp [handle, onReconnectTimeout, htoken, Spaced, connectToServer, QWebSocket.open]

theorem pending_of_reached (h : system.Reached Spaced c) : c.socket.pending ≤ 1 := by
  induction h with
  | init hinit =>
      rw [hinit]
      exact Nat.zero_le 1
  | step _ hspaced hstep ih =>
      rw [hstep.2]
      exact (pending_handle_iff ih).mpr hspaced

/-- **An explicit disconnect.**  No run opens the socket after `disconnect` until the user
asks to connect, exactly when it was unconnected already or there is no token.  One open
is pending at most in a run that opens the socket only after it told how the last time
went, and no longer. -/
theorem disconnect_final_iff (c : WebSocketClient) :
    ((∀ c', (system.startingAt c.disconnect).Reached Unasked c' →
        c'.socket.opens = c.disconnect.socket.opens)
      ↔ c.socket.state = .unconnected ∨ c.token = "")
    ∧ (system.Reached Spaced c → c.socket.pending ≤ 1
      ∧ ∀ event, (c.handle event).socket.pending ≤ 1 ↔ c.Spaced event) := by
  refine ⟨⟨fun hfinal => ?_, fun hidle c' hrun => ?_⟩, fun hrun => ?_⟩
  · by_contra hnot
    rw [not_or] at hnot
    obtain ⟨c', hrun, hopens⟩ := reopens hnot.1 hnot.2
    have hsame := hfinal c' hrun
    simp [hopens] at hsame
  · exact (ended_disconnect hidle).after hrun
  · have hpending := pending_of_reached hrun
    exact ⟨hpending, fun event => pending_handle_iff hpending⟩

theorem disconnect_final_iff_initial :
    ((∀ c', (system.startingAt (disconnect {})).Reached Unasked c' →
        c'.socket.opens = (disconnect {}).socket.opens)
      ↔ ({} : WebSocketClient).socket.state = .unconnected ∨ ({} : WebSocketClient).token = "")
    ∧ (system.Reached Spaced {} → ({} : WebSocketClient).socket.pending ≤ 1
      ∧ ∀ event, (handle {} event).socket.pending ≤ 1 ↔ Spaced {} event) :=
  disconnect_final_iff {}

/-- A client that has connected with a token. -/
def online : WebSocketClient := (connectToServer {} "t").handle .connected

theorem online_reachable : system.Reachable online := by
  have hinit : system.Reachable {} := .init rfl
  have hasked : system.Reachable (connectToServer {} "t") :=
    .step (a := .connectToServer "t") hinit trivial ⟨trivial, rfl⟩
  exact .step (a := .connected) hasked trivial ⟨rfl, rfl⟩

/-- It connects with the same token after `disconnect`. -/
theorem disconnect_not_final : ¬ ∀ c, system.Reachable c →
    ∀ c', (system.startingAt c.disconnect).Reached Unasked c' →
      c'.socket.opens = c.disconnect.socket.opens := by
  intro h
  obtain ⟨c', hrun, hopens⟩ := reopens (c := online) (by decide) (by decide)
  have hsame := h online online_reachable c' hrun
  simp [hopens] at hsame

end WebSocketClient

end CustomNetwork

end MessengerClient
