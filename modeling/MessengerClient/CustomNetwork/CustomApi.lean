import MessengerClient.Lib.Runs

/-!
# MessengerClient.CustomNetwork.CustomApi

The session of `custom_network/custom_api.cpp`: the tokens are in the memory of the
`SessionManager`, in its file, and in the `RestClient`, and the answers of requests
change all three.

A session file is what it reads as, and the file system does what it is told.  Bodies of
requests, user profiles and the timer that asks for a refresh (nothing is connected to it)
are left out.
-/

namespace MessengerClient

namespace CustomNetwork

/-! ## The parts of the client -/

/-- What the session file holds; a value that it lacks reads as an empty one. -/
structure SessionData where
  accessToken : String := ""
  refreshToken : String := ""
  userId : String := ""
deriving DecidableEq, Repr

/-- What a request does when it is answered. -/
inductive Done where
  | login
  | profile
  | refreshToken
  | ignore
deriving DecidableEq, Repr

structure SentRequest where
  path : String
  /-- The `Authorization` header. -/
  authorization : Option String
  done : Done
deriving DecidableEq, Repr

abbrev RequestId := Nat

structure RestClient where
  authToken : String := ""
  /-- The replies that are not finished. -/
  replies : List (RequestId × SentRequest) := []
  nextId : RequestId := 0
deriving DecidableEq, Repr

namespace RestClient

variable (c : RestClient)

def setAuthToken (token : String) : RestClient := { c with authToken := token }

def createRequest (path : String) (done : Done) : SentRequest where
  path := path
  authorization := if c.authToken.isEmpty then none else some ("Bearer " ++ c.authToken)
  done := done

/-- `get` and `post`, which differ in what is left out here. -/
def send (path : String) (done : Done) : RestClient :=
  { c with
    replies := c.replies ++ [(c.nextId, c.createRequest path done)]
    nextId := c.nextId + 1 }

end RestClient

structure TokenPair where
  accessToken : String
  refreshToken : String
deriving DecidableEq, Repr

/-- The object, and the session file, which outlives it. -/
structure CustomApi where
  restClient : RestClient := {}
  session : SessionData := {}
  file : Option SessionData := none
deriving DecidableEq, Repr

namespace CustomApi

variable (api : CustomApi)

/-- The constructor, by `SessionManager::loadFromStorage`. -/
def construct (file : Option SessionData) : CustomApi where
  session := file.getD {}
  file := file

/-! ## SessionManager -/

def saveToStorage : CustomApi := { api with file := some api.session }

def setTokens (tokens : TokenPair) : CustomApi :=
  saveToStorage { api with
    session := { api.session with
      accessToken := tokens.accessToken
      refreshToken := tokens.refreshToken } }

def clear : CustomApi := { api with session := {}, file := none }

/-! ## CustomApi -/

def setAuthToken (token : String) : CustomApi :=
  { api with restClient := api.restClient.setAuthToken token }

def send (path : String) (done : Done) : CustomApi :=
  { api with restClient := api.restClient.send path done }

def login : CustomApi := api.send "/auth/login" .login

def refreshToken : CustomApi := api.send "/auth/refresh" .refreshToken

def logout : CustomApi := ((api.send "/auth/logout" .ignore).clear).setAuthToken ""

/-- A request has succeeded; the tokens are those of the response. -/
def finished (done : Done) (tokens : TokenPair) : CustomApi :=
  match done with
  | .login =>
      ((api.setTokens tokens).setAuthToken tokens.accessToken).send "/auth/me" .profile
  | .refreshToken => (api.setTokens tokens).setAuthToken (api.setTokens tokens).session.accessToken
  | .profile | .ignore => api

/-- A reply is finished, with a response or with an error. -/
def handleReply (id : RequestId) (done : Done) (response : Option TokenPair) : CustomApi :=
  let api := { api with
    restClient := { api.restClient with replies := api.restClient.replies.filter (·.1 ≠ id) } }
  match response with
  | some tokens => api.finished done tokens
  | none => api

end CustomApi

/-! ## Runs -/

/-- The client, and what its last logout left: the requests that were sent before it, and
whether no answer of a login that was called after it has come yet. -/
structure Client where
  api : CustomApi := {}
  constructed : Bool := false
  loggedOut : Bool := false
  outdated : List RequestId := []
deriving DecidableEq, Repr

inductive Event where
  | construct
  | login
  | refreshToken
  | logout
  | answer (id : RequestId) (response : Option TokenPair)
deriving DecidableEq, Repr

namespace Client

variable (c : Client)

def findReply (id : RequestId) : Option SentRequest :=
  (c.api.restClient.replies.find? (·.1 = id)).map Prod.snd

def next : Event → Option Client
  | .construct =>
      some { c with api := .construct c.api.file, constructed := true, outdated := [] }
  | .login => if c.constructed then some { c with api := c.api.login } else none
  | .refreshToken => if c.constructed then some { c with api := c.api.refreshToken } else none
  | .logout =>
      if c.constructed then
        some { c with
          api := c.api.logout
          loggedOut := true
          outdated := c.api.restClient.replies.map Prod.fst }
      else none
  | .answer id response =>
      (c.findReply id).map fun sent =>
        { c with
          api := c.api.handleReply id sent.done response
          loggedOut := c.loggedOut && !(sent.done == .login && !c.outdated.contains id) }

/-- The client is constructed from any session file, and again after each restart. -/
def system : System Client Event where
  init c := ∃ file, c = { api := { file := file } }
  step c event c' := c.next event = some c'

variable {c} {c' : Client}

/-- A client that is not constructed yet, without a session file. -/
def fresh : Client := {}

/-- A client that was constructed from a stored session. -/
def restored : Client where
  api := .construct (some ⟨"t", "r", ""⟩)
  constructed := true

end Client

end CustomNetwork

end MessengerClient
