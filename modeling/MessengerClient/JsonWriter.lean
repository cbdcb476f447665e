import MessengerClient.Lib.Json

/-!
# MessengerClient.JsonWriter

`JsonWriter`, the writer of an export in JSON, and the calls `ControllerObject` makes
on it.  Brackets and commas come from a stack of open containers and one flag that are
kept between the calls.

A call that fails an `Expects` or an `Assert`, or reaches an `Unexpected`, is `none`;
writing a block does not fail.
-/

namespace MessengerClient

namespace Export

open Json

/-! ## Data -/

abbrev TimeId : Type := Int

inductive SettingsType where
  | PersonalInfo
  | Userpics
  | Contacts
  | Sessions
  | OtherData
  | PersonalChats
  | BotChats
  | PrivateGroups
  | PublicGroups
  | PrivateChannels
  | PublicChannels
  | Stories
  | ProfileMusic
deriving DecidableEq, Repr

def AnyChatsMask : List SettingsType :=
  [.PersonalChats, .BotChats, .PrivateGroups, .PublicGroups, .PrivateChannels, .PublicChannels]

/-- `types` are the flags that are set; `singlePeer` is that `singlePeer` is not empty. -/
structure Settings where
  path : Bytes := ascii "/"
  types : List SettingsType := []
  singlePeer : Bool := false
  singleTopicRootId : Int := 0
  singlePeerFrom : TimeId := 0
  singlePeerTill : TimeId := 0
deriving DecidableEq, Repr

namespace Settings

def onlySinglePeer (s : Settings) : Bool := s.singlePeer

def onlySingleTopic (s : Settings) : Bool := s.onlySinglePeer && s.singleTopicRootId ≠ 0

/-- `_settings.types & mask`. -/
def hasAny (s : Settings) (mask : List SettingsType) : Bool := mask.any (s.types.contains ·)

end Settings

structure Environment where
  aboutTelegram : Bytes
  aboutContacts : Bytes
  aboutFrequent : Bytes
  aboutSessions : Bytes
  aboutWebSessions : Bytes
  aboutChats : Bytes
  aboutLeftChats : Bytes
deriving DecidableEq, Repr

/-- Dates as `Qt::ISODate` writes them, and `Ui::FormatPhone`. -/
structure Platform where
  isoDate : TimeId → Bytes
  formatPhone : Bytes → Bytes

inductive SkipReason where
  | None
  | Unavailable
  | FileType
  | FileSize
  | DateLimits
deriving DecidableEq, Repr

structure File where
  relativePath : Bytes
  skipReason : SkipReason
deriving DecidableEq, Repr

/-- A file as `ApiWrap` hands it over: loaded or skipped, and date limits are for the
files of messages only. -/
structure ProcessedFile extends File where
  processed : relativePath ≠ [] ∨ skipReason ≠ .None
  undated : skipReason ≠ .DateLimits

structure PersonalInfo where
  userId : Nat
  firstName : Bytes
  lastName : Bytes
  phoneNumber : Bytes
  username : Bytes
  bio : Bytes
deriving DecidableEq, Repr

structure Photo where
  date : TimeId
  file : ProcessedFile

/-- `ApiWrap` does not hand over an empty slice. -/
structure UserpicsSlice where
  list : List Photo
  ne_nil : list ≠ []

structure Story where
  date : TimeId
  expires : TimeId
  pinned : Bool
  file : ProcessedFile

structure ContactInfo where
  userId : Nat
  firstName : Bytes
  lastName : Bytes
  phoneNumber : Bytes
  date : TimeId
deriving DecidableEq, Repr

/-- What a top peer is, as far as `writeFrequentContacts` asks. -/
inductive PeerKind where
  | user
  | chat (hasUsername isBroadcast isSupergroup : Bool)
deriving DecidableEq, Repr

/-- `rating` is a `double`, already as `NumberToString` gives it. -/
structure TopPeer where
  kind : PeerKind
  peerId : Nat
  name : Bytes
  rating : Bytes
deriving DecidableEq, Repr

/-- `list` is in the order of `SortedContactsIndices`. -/
structure ContactsList where
  list : List ContactInfo := []
  correspondents : List TopPeer := []
  inlineBots : List TopPeer := []
  phoneCalls : List TopPeer := []
deriving DecidableEq, Repr

structure Session where
  lastActive : TimeId
  ip : Bytes
  country : Bytes
  region : Bytes
  applicationName : Bytes
  applicationVersion : Bytes
  deviceModel : Bytes
  platform : Bytes
  systemVersion : Bytes
  created : TimeId
deriving DecidableEq, Repr

structure WebSession where
  lastActive : TimeId
  ip : Bytes
  region : Bytes
  botUsername : Bytes
  domain : Bytes
  browser : Bytes
  platform : Bytes
  created : TimeId
deriving DecidableEq, Repr

structure SessionsList where
  list : List Session := []
  webList : List WebSession := []
deriving DecidableEq, Repr

/-- `QJsonValue`; a `double` is already as `NumberToString` gives it. -/
inductive QJsonValue where
  | null
  | bool (value : Bool)
  | double (text : Bytes)
  | string (value : Bytes)
  | array (values : List QJsonValue)
  | object (members : List (Bytes × QJsonValue))
  | undefined

namespace QJsonValue

def isUndefined : QJsonValue → Bool
  | undefined => true
  | _ => false

end QJsonValue

/-- `QJsonDocument`. -/
inductive QJsonDocument where
  | object (members : List (Bytes × QJsonValue))
  | array (values : List QJsonValue)

/-- The file of `writeOtherData` and what is read from it, if it is not empty. -/
structure OtherData extends File where
  document : Option QJsonDocument

inductive DialogType where
  | Unknown
  | Self
  | Replies
  | VerifyCodes
  | Personal
  | Bot
  | PrivateGroup
  | PrivateSupergroup
  | PublicSupergroup
  | PrivateChannel
  | PublicChannel
deriving DecidableEq, Repr

structure DialogInfo where
  type : DialogType := .Unknown
  name : Bytes := []
  peerId : Nat := 0
  isLeftChannel : Bool := false
deriving DecidableEq, Repr

/-! ## Serialization -/

/-- One character of `SerializeString`, with what comes after it. -/
def serializeChar (ch : UInt8) (rest : Bytes) : Bytes :=
  if ch = 0x0a then ascii "\\n"
  else if ch = 0x0d then ascii "\\r"
  else if ch = 0x09 then ascii "\\t"
  else if ch = 0x22 then ascii "\\\""
  else if ch = 0x5c then ascii "\\\\"
  else if ch < 32 then
    let left := ch &&& 0x0f
    ascii "\\x" ++
      [(0x30 : UInt8) + ch >>> (4 : UInt8), if left ≥ 10 then 0x41 + (left - 10) else 0x30 + left]
  else if ch = 0xe2 ∧ rest.length ≥ 2 ∧ rest[0]? = some 0x80 then
    if rest[1]? = some 0xa8 then ascii "\\u2028"
    else if rest[1]? = some 0xa9 then ascii "\\u2029"
    else [ch]
  else [ch]

def serializeChars : Bytes → Bytes
  | [] => []
  | ch :: rest => serializeChar ch rest ++ serializeChars rest

def serializeString (value : Bytes) : Bytes :=
  0x22 :: (serializeChars value ++ [0x22])

/-- `Data::NumberToString` of an integer. -/
def numberToString (value : Int) : Bytes := ascii (toString value)

def serializeDate (p : Platform) (date : TimeId) : Bytes := serializeString (p.isoDate date)

def serializeDateRaw (date : TimeId) : Bytes := serializeString (numberToString date)

def stringAllowEmpty (data : Bytes) : Bytes :=
  if data.isEmpty then data else serializeString data

def stringAllowNull (data : Bytes) : Bytes :=
  if data.isEmpty then ascii "null" else serializeString data

def indentation (nesting : List Container) : Bytes :=
  List.replicate nesting.length 0x20

/-- The loop of `SerializeObject`: an empty value is left out with its key. -/
def objectItems (next : Bytes) : Bool → List (Bytes × Bytes) → Bytes
  | _, [] => []
  | first, (key, value) :: values =>
    if value.isEmpty then
      objectItems next first values
    else
      (if first then [] else ascii ",") ++ next ++ serializeString key ++ ascii ": " ++ value ++
        objectItems next false values

def serializeObject (nesting : List Container) (values : List (Bytes × Bytes)) : Bytes :=
  let next := ascii "\n" ++ indentation (.object :: nesting)
  [Container.object.opening] ++ objectItems next true values ++
    (ascii "\n" ++ indentation nesting) ++ [Container.object.closing]

/-- The loop of `SerializeArray`. -/
def arrayItems (next : Bytes) : Bool → List Bytes → Bytes
  | _, [] => []
  | first, value :: values =>
    (if first then [] else ascii ",") ++ next ++ value ++ arrayItems next false values

def serializeArray (nesting : List Container) (values : List Bytes) : Bytes :=
  let next := ascii "\n" ++ indentation (.array :: nesting)
  [Container.array.opening] ++ arrayItems next true values ++
    (ascii "\n" ++ indentation nesting) ++ [Container.array.closing]

/-- The objects and arrays that are made with `SerializeObject` and `SerializeArray`
over the values that are already serialized. -/
inductive Tree where
  | leaf (text : Bytes)
  | object (values : List (Bytes × Tree))
  | array (values : List Tree)

namespace Tree

mutual

def serialize (nesting : List Container) : Tree → Bytes
  | leaf text => text
  | object values => serializeObject nesting (serializeFields (.object :: nesting) values)
  | array values => serializeArray nesting (serializeItems (.array :: nesting) values)

def serializeFields (nesting : List Container) : List (Bytes × Tree) → List (Bytes × Bytes)
  | [] => []
  | (key, value) :: values => (key, serialize nesting value) :: serializeFields nesting values

def serializeItems (nesting : List Container) : List Tree → List Bytes
  | [] => []
  | value :: values => serialize nesting value :: serializeItems nesting values

end

end Tree

/-- A key that `SerializeString` does not have to write as `\x`. -/
def plainKey (key : Bytes) : Bool :=
  key.all fun ch => 32 ≤ ch ∨ ch = 0x0a ∨ ch = 0x0d ∨ ch = 0x09

namespace Tree

mutual

def plainKeys : Tree → Bool
  | leaf _ => true
  | object values => plainFields values
  | array values => plainItems values

def plainFields : List (Bytes × Tree) → Bool
  | [] => true
  | (key, value) :: values => plainKey key && plainKeys value && plainFields values

def plainItems : List Tree → Bool
  | [] => true
  | value :: values => plainKeys value && plainItems values

end

end Tree

/-- What `SerializeMessage` makes an object of, which is under constant keys. -/
structure Message where
  date : TimeId
  values : List (Bytes × Tree)
  plain : Tree.plainFields values

def Message.tree (message : Message) : Tree := .object message.values

def skipMessageByDate (message : Message) (settings : Settings) : Bool :=
  let goodFrom := settings.singlePeerFrom ≤ 0 ∨ settings.singlePeerFrom ≤ message.date
  let goodTill := settings.singlePeerTill ≤ 0 ∨ message.date < settings.singlePeerTill
  ¬ goodFrom ∨ ¬ goodTill

/-- An object of serialized values under constant keys. -/
def record (values : List (String × Bytes)) : Tree :=
  .object (values.map fun (key, value) => (ascii key, .leaf value))

/-! ## The objects of the sections -/

def formatUsername (username : Bytes) : Bytes :=
  if username.isEmpty then username else ascii "@" ++ username

def formatPhoneNumber (p : Platform) (phoneNumber : Bytes) : Bytes :=
  if phoneNumber.isEmpty then [] else p.formatPhone phoneNumber

def kChatTypeMask : Nat := 0xFFFFFFFFFFFF

def peerToBareId (peerId : Nat) : Nat := peerId &&& kChatTypeMask

/-- A date that may be missing. -/
def ifDate (date : TimeId) (value : Bytes) : Bytes := if date ≠ 0 then value else []

def boolText (value : Bool) : Bytes := ascii (if value then "true" else "false")

def personalTree (p : Platform) (data : PersonalInfo) : Tree :=
  record
    [("user_id", numberToString data.userId),
     ("first_name", serializeString data.firstName),
     ("last_name", serializeString data.lastName),
     ("phone_number", serializeString (formatPhoneNumber p data.phoneNumber)),
     ("username",
       if data.username.isEmpty then [] else serializeString (formatUsername data.username)),
     ("bio", if data.bio.isEmpty then [] else serializeString data.bio)]

def photoTree (p : Platform) (date : TimeId) (path : Bytes) : Tree :=
  record
    [("date", ifDate date (serializeDate p date)),
     ("date_unixtime", ifDate date (serializeDateRaw date)),
     ("photo", serializeString path)]

def storyTree (p : Platform) (story : Story) (path : Bytes) : Tree :=
  record
    [("date", ifDate story.date (serializeDate p story.date)),
     ("date_unixtime", ifDate story.date (serializeDateRaw story.date)),
     ("expires", ifDate story.expires (serializeDate p story.expires)),
     ("expires_unixtime", ifDate story.expires (serializeDateRaw story.expires)),
     ("pinned", boolText story.pinned),
     ("media", serializeString path)]

def contactTree (p : Platform) (contact : ContactInfo) : Tree :=
  if contact.firstName.isEmpty && contact.lastName.isEmpty && contact.phoneNumber.isEmpty then
    record
      [("date", serializeDate p contact.date),
       ("date_unixtime", serializeDateRaw contact.date)]
  else
    record
      [("user_id", if contact.userId ≠ 0 then numberToString contact.userId else []),
       ("first_name", serializeString contact.firstName),
       ("last_name", serializeString contact.lastName),
       ("phone_number", serializeString (formatPhoneNumber p contact.phoneNumber)),
       ("date", serializeDate p contact.date),
       ("date_unixtime", serializeDateRaw contact.date)]

def topPeerType : PeerKind → String
  | .user => "user"
  | .chat hasUsername isBroadcast isSupergroup =>
    if hasUsername then
      if isBroadcast then "public_channel" else "public_supergroup"
    else if isBroadcast then "private_channel"
    else if isSupergroup then "private_supergroup"
    else "private_group"

def topPeerTree (category : String) (top : TopPeer) : Tree :=
  record
    [("id", numberToString (peerToBareId top.peerId)),
     ("category", serializeString (ascii category)),
     ("type", serializeString (ascii (topPeerType top.kind))),
     ("name", stringAllowNull top.name),
     ("rating", top.rating)]

def sessionTree (p : Platform) (session : Session) : Tree :=
  record
    [("last_active", serializeDate p session.lastActive),
     ("last_active_unixtime", serializeDateRaw session.lastActive),
     ("last_ip", serializeString session.ip),
     ("last_country", serializeString session.country),
     ("last_region", serializeString session.region),
     ("application_name", stringAllowNull session.applicationName),
     ("application_version", stringAllowEmpty session.applicationVersion),
     ("device_model", serializeString session.deviceModel),
     ("platform", serializeString session.platform),
     ("system_version", serializeString session.systemVersion),
     ("created", serializeDate p session.created),
     ("created_unixtime", serializeDateRaw session.created)]

def webSessionTree (p : Platform) (session : WebSession) : Tree :=
  record
    [("last_active", serializeDate p session.lastActive),
     ("last_active_unixtime", serializeDateRaw session.lastActive),
     ("last_ip", serializeString session.ip),
     ("last_region", serializeString session.region),
     ("bot_username", stringAllowNull session.botUsername),
     ("domain_name", stringAllowNull session.domain),
     ("browser", serializeString session.browser),
     ("platform", serializeString session.platform),
     ("created", serializeDate p session.created),
     ("created_unixtime", serializeDateRaw session.created)]

/-! ## The writer -/

inductive DialogsMode where
  | None
  | Chats
  | Left
deriving DecidableEq, Repr

/-- The head of `nesting` is its last element in the source; `output` holds the blocks
written, once the file is there. -/
structure JsonWriter where
  settings : Settings := {}
  environment : Environment := ⟨[], [], [], [], [], [], []⟩
  nesting : List Container := []
  currentNestingHadItem : Bool := false
  dialogsMode : DialogsMode := .None
  output : Option (List Bytes) := none
deriving DecidableEq, Repr

namespace JsonWriter

/-- All that is in the file. -/
def written (w : JsonWriter) : Bytes := (w.output.getD []).flatten

/-- Some bytes of a block, made while the writer changes. -/
def Block : Type := JsonWriter → Option (Bytes × JsonWriter)

namespace Block

def empty : Block := fun w => some ([], w)

def text (t : Bytes) : Block := fun w => some (t, w)

/-- `Unexpected`, or an `Assert` that fails. -/
def fail : Block := fun _ => none

/-- One part, then the other. -/
def append (a b : Block) : Block := fun w =>
  (a w).bind fun (s, w) => (b w).map fun (t, w) => (s ++ t, w)

instance : Append Block := ⟨append⟩

def forEach {α : Type} (f : α → Block) : List α → Block
  | [] => empty
  | a :: l => f a ++ forEach f l

end Block

open Block

def pushNesting (type : Container) : Block := fun w =>
  if w.output.isNone then none else some
    ([type.opening], { w with nesting := type :: w.nesting, currentNestingHadItem := false })

def prepareObjectItemStart (key : Bytes) : Block := fun w => some
  ((if w.currentNestingHadItem then ascii ",\n" else ascii "\n") ++ indentation w.nesting ++
    serializeString key ++ ascii ": ", { w with currentNestingHadItem := true })

def prepareArrayItemStart : Block := fun w => some
  ((if w.currentNestingHadItem then ascii ",\n" else ascii "\n") ++ indentation w.nesting,
    { w with currentNestingHadItem := true })

def popNesting : Block := fun w =>
  if w.output.isNone then none else match w.nesting with
    | [] => none
    | type :: nesting => some
      (ascii "\n" ++ indentation nesting ++ [type.closing],
        { w with nesting := nesting, currentNestingHadItem := true })

/-- What is serialized in the current context. -/
def serialize (value : Tree) : Block := fun w => some (value.serialize w.nesting, w)

/-- `Expects(_output != nullptr)` and `File::writeBlock`. -/
def writeBlock (block : Block) (w : JsonWriter) : Option JsonWriter :=
  if w.output.isNone then none else
    (block w).map fun (bytes, w) => { w with output := w.output.map (· ++ [bytes]) }

def start (settings : Settings) (environment : Environment) (w : JsonWriter) :
    Option JsonWriter :=
  if w.output.isSome ∨ settings.path.getLast? ≠ some 0x2f then
    none
  else
    let w := { w with settings := settings, environment := environment, output := some [] }
    if settings.onlySinglePeer then
      some w
    else
      writeBlock (pushNesting .object ++ prepareObjectItemStart (ascii "about") ++
        text (serializeString environment.aboutTelegram)) w

def writePersonal (p : Platform) (data : PersonalInfo) : JsonWriter → Option JsonWriter :=
  writeBlock (prepareObjectItemStart (ascii "personal_information") ++
    serialize (personalTree p data))

/-! ## Lists of files -/

/-- A list straight in the main object. -/
def writeListStart (key : String) : JsonWriter → Option JsonWriter :=
  writeBlock (prepareObjectItemStart (ascii key) ++ pushNesting .array)

def writeListEnd : JsonWriter → Option JsonWriter := writeBlock popNesting

/-- The path of a photo or a story, or why it is missing. -/
def photoPath (file : File) : Option Bytes :=
  match file.skipReason with
  | .Unavailable => some (ascii "(Photo unavailable, please try again later)")
  | .FileSize => some (ascii ("(Photo exceeds maximum size. " ++
      "Change data exporting settings to download.)"))
  | .FileType => some (ascii ("(Photo not included. " ++
      "Change data exporting settings to download.)"))
  | .None => some file.relativePath
  | .DateLimits => none

/-- One item with a file: the `Assert`, the path, and the object with it. -/
def fileItem (file : File) (tree : Bytes → Tree) : Block :=
  if file.relativePath ≠ [] ∨ file.skipReason ≠ .None then
    match photoPath file with
    | some path => prepareArrayItemStart ++ serialize (tree path)
    | none => fail
  else
    fail

def writeUserpicsStart : JsonWriter → Option JsonWriter := writeListStart "profile_pictures"

def writeUserpicsSlice (p : Platform) (data : List Photo) (w : JsonWriter) : Option JsonWriter :=
  if data.isEmpty then none else
    writeBlock (forEach (fun userpic =>
      fileItem userpic.file.toFile (photoTree p userpic.date)) data) w

def writeUserpicsEnd : JsonWriter → Option JsonWriter := writeListEnd

def writeStoriesStart : JsonWriter → Option JsonWriter := writeListStart "stories"

def writeStoriesSlice (p : Platform) (data : List Story) (w : JsonWriter) : Option JsonWriter :=
  if w.output.isNone then none else if data.isEmpty then some w else
    writeBlock (forEach (fun story => fileItem story.file.toFile (storyTree p story)) data) w

def writeStoriesEnd : JsonWriter → Option JsonWriter := writeListEnd

def writeProfileMusicStart : JsonWriter → Option JsonWriter := writeListStart "profile_music"

def writeProfileMusicSlice (data : List Message) (w : JsonWriter) : Option JsonWriter :=
  if w.output.isNone then none else if data.isEmpty then some w else
    writeBlock (forEach (fun message => prepareArrayItemStart ++ serialize message.tree) data) w

def writeProfileMusicEnd : JsonWriter → Option JsonWriter := writeListEnd

/-! ## Lists with a description -/

/-- The front of an object with a description and a list. -/
def aboutListStart (key : String) (about : Bytes) : Block :=
  prepareObjectItemStart (ascii key) ++ pushNesting .object ++
    prepareObjectItemStart (ascii "about") ++ text (serializeString about) ++
    prepareObjectItemStart (ascii "list") ++ pushNesting .array

def aboutListEnd : Block := popNesting ++ popNesting

/-- One item of a list that is written at once. -/
def listItem {α : Type} (tree : α → Tree) (data : α) : Block :=
  prepareArrayItemStart ++ serialize (tree data)

def writeSavedContacts (p : Platform) (data : ContactsList) (w : JsonWriter) :
    Option JsonWriter :=
  writeBlock (aboutListStart "contacts" w.environment.aboutContacts ++
    forEach (listItem (contactTree p)) data.list ++ aboutListEnd) w

def writeFrequentContacts (data : ContactsList) (w : JsonWriter) : Option JsonWriter :=
  writeBlock (aboutListStart "frequent_contacts" w.environment.aboutFrequent ++
    forEach (listItem (topPeerTree "people")) data.correspondents ++
    forEach (listItem (topPeerTree "inline_bots")) data.inlineBots ++
    forEach (listItem (topPeerTree "calls")) data.phoneCalls ++ aboutListEnd) w

def writeContactsList (p : Platform) (data : ContactsList) (w : JsonWriter) :
    Option JsonWriter :=
  if w.output.isNone then none else
    (writeSavedContacts p data w).bind (writeFrequentContacts data)

def writeSessions (p : Platform) (data : SessionsList) (w : JsonWriter) : Option JsonWriter :=
  writeBlock (aboutListStart "sessions" w.environment.aboutSessions ++
    forEach (listItem (sessionTree p)) data.list ++ aboutListEnd) w

def writeWebSessions (p : Platform) (data : SessionsList) (w : JsonWriter) :
    Option JsonWriter :=
  writeBlock (aboutListStart "web_sessions" w.environment.aboutWebSessions ++
    forEach (listItem (webSessionTree p)) data.webList ++ aboutListEnd) w

def writeSessionsList (p : Platform) (data : SessionsList) (w : JsonWriter) :
    Option JsonWriter :=
  if w.output.isNone then none else
    (writeSessions p data w).bind (writeWebSessions p data)

/-! ## Other data -/

mutual

def pushValue : QJsonValue → Block
  | .null => text (ascii "null")
  | .bool value => text (boolText value)
  | .double number => text number
  | .string value => text (serializeString value)
  | .array values => pushNesting .array ++ pushItems values ++ popNesting
  | .object members => pushNesting .object ++ pushMembers members ++ popNesting
  | .undefined => fail

/-- The loop of `pushArray`. -/
def pushItems : List QJsonValue → Block
  | [] => empty
  | value :: values =>
    (if value.isUndefined then empty else prepareArrayItemStart ++ pushValue value) ++
      pushItems values

/-- The loop of `pushObject`. -/
def pushMembers : List (Bytes × QJsonValue) → Block
  | [] => empty
  | (key, value) :: members =>
    (if value.isUndefined then empty else prepareObjectItemStart key ++ pushValue value) ++
      pushMembers members

end

def pushDocument : QJsonDocument → Block
  | .object members => pushValue (.object members)
  | .array values => pushValue (.array values)

def writeOtherData (data : OtherData) (w : JsonWriter) : Option JsonWriter :=
  if w.output.isNone ∨ data.skipReason ≠ .None ∨ data.relativePath = [] then
    none
  else match data.document with
    | none => some w
    | some document =>
      writeBlock (prepareObjectItemStart (ascii "other_data") ++ pushDocument document) w

/-! ## Dialogs -/

def writeDialogsStart (w : JsonWriter) : Option JsonWriter := some w

def writeChatsStart (listName : String) (about : Bytes) : JsonWriter → Option JsonWriter :=
  writeBlock (aboutListStart listName about)

def writeChatsEnd : JsonWriter → Option JsonWriter := writeBlock aboutListEnd

def validateDialogsMode (isLeftChannel : Bool) (w : JsonWriter) : Option JsonWriter :=
  let mode := if isLeftChannel then DialogsMode.Left else .Chats
  if w.dialogsMode = mode then
    some w
  else
    (if w.dialogsMode ≠ .None then writeChatsEnd w else some w).bind fun w =>
      writeChatsStart (if isLeftChannel then "left_chats" else "chats")
        (if isLeftChannel then w.environment.aboutLeftChats else w.environment.aboutChats)
        { w with dialogsMode := mode }

def typeString : DialogType → String
  | .Unknown => ""
  | .Self => "saved_messages"
  | .Replies => "replies"
  | .VerifyCodes => "verification_codes"
  | .Personal => "personal_chat"
  | .Bot => "bot_chat"
  | .PrivateGroup => "private_group"
  | .PrivateSupergroup => "private_supergroup"
  | .PublicSupergroup => "public_supergroup"
  | .PrivateChannel => "private_channel"
  | .PublicChannel => "public_channel"

/-- The name is left out where the type says all. -/
def dialogName (data : DialogInfo) : Block :=
  if data.type ≠ .Self ∧ data.type ≠ .Replies ∧ data.type ≠ .VerifyCodes then
    prepareObjectItemStart (ascii "name") ++ text (stringAllowNull data.name)
  else
    empty

def dialogStart (data : DialogInfo) : Block :=
  pushNesting .object ++ dialogName data ++
    prepareObjectItemStart (ascii "type") ++ text (stringAllowNull (ascii (typeString data.type))) ++
    prepareObjectItemStart (ascii "id") ++ text (numberToString (peerToBareId data.peerId)) ++
    prepareObjectItemStart (ascii "messages") ++ pushNesting .array

def writeDialogStart (data : DialogInfo) (w : JsonWriter) : Option JsonWriter :=
  if w.output.isNone then none else
    if w.settings.onlySinglePeer then
      writeBlock (dialogStart data) w
    else
      (validateDialogsMode data.isLeftChannel w).bind
        (writeBlock (prepareArrayItemStart ++ dialogStart data))

def dialogSlice (settings : Settings) (list : List Message) : Block :=
  forEach (fun message =>
    if skipMessageByDate message settings then empty
    else prepareArrayItemStart ++ serialize message.tree) list

/-- A block that stays empty is not written. -/
def writeDialogSlice (list : List Message) (w : JsonWriter) : Option JsonWriter :=
  if w.output.isNone then none else
    (dialogSlice w.settings list w).map fun (block, w) =>
      if block.isEmpty then w else { w with output := w.output.map (· ++ [block]) }

def writeDialogEnd : JsonWriter → Option JsonWriter := writeBlock (popNesting ++ popNesting)

def writeDialogsEnd (w : JsonWriter) : Option JsonWriter :=
  if w.settings.onlySinglePeer then some w else writeChatsEnd w

def finish (w : JsonWriter) : Option JsonWriter :=
  if w.output.isNone then
    none
  else if w.settings.onlySinglePeer then
    if w.nesting.isEmpty then some w else none
  else
    (popNesting w).bind fun (block, w) =>
      if w.nesting.isEmpty then some { w with output := w.output.map (· ++ [block]) } else none

end JsonWriter

/-! ## The controller -/

structure Dialog where
  info : DialogInfo
  slices : List (List Message) := []

/-- What `ApiWrap` answers with; `dialogs` are the items of `_dialogsInfo`, and `topic`
is what `exportTopic` takes instead. -/
structure Answers where
  personal : PersonalInfo
  userpics : List UserpicsSlice := []
  stories : List (List Story) := []
  profileMusic : List (List Message) := []
  contacts : ContactsList := {}
  sessions : SessionsList := {}
  otherData : OtherData
  dialogs : List Dialog := []
  topic : Dialog

inductive Call where
  | start (settings : Settings) (environment : Environment)
  | writePersonal (data : PersonalInfo)
  | writeUserpicsStart
  | writeUserpicsSlice (data : UserpicsSlice)
  | writeUserpicsEnd
  | writeStoriesStart
  | writeStoriesSlice (data : List Story)
  | writeStoriesEnd
  | writeProfileMusicStart
  | writeProfileMusicSlice (data : List Message)
  | writeProfileMusicEnd
  | writeContactsList (data : ContactsList)
  | writeSessionsList (data : SessionsList)
  | writeOtherData (data : OtherData)
  | writeDialogsStart
  | writeDialogStart (data : DialogInfo)
  | writeDialogSlice (data : List Message)
  | writeDialogEnd
  | writeDialogsEnd
  | finish

namespace JsonWriter

def perform (p : Platform) : Call → JsonWriter → Option JsonWriter
  | .start settings environment => start settings environment
  | .writePersonal data => writePersonal p data
  | .writeUserpicsStart => writeUserpicsStart
  | .writeUserpicsSlice data => writeUserpicsSlice p data.list
  | .writeUserpicsEnd => writeUserpicsEnd
  | .writeStoriesStart => writeStoriesStart
  | .writeStoriesSlice data => writeStoriesSlice p data
  | .writeStoriesEnd => writeStoriesEnd
  | .writeProfileMusicStart => writeProfileMusicStart
  | .writeProfileMusicSlice data => writeProfileMusicSlice data
  | .writeProfileMusicEnd => writeProfileMusicEnd
  | .writeContactsList data => writeContactsList p data
  | .writeSessionsList data => writeSessionsList p data
  | .writeOtherData data => writeOtherData data
  | .writeDialogsStart => writeDialogsStart
  | .writeDialogStart data => writeDialogStart data
  | .writeDialogSlice data => writeDialogSlice data
  | .writeDialogEnd => writeDialogEnd
  | .writeDialogsEnd => writeDialogsEnd
  | .finish => finish

def run (p : Platform) : List Call → JsonWriter → Option JsonWriter
  | [], w => some w
  | call :: calls, w => (perform p call w).bind (run p calls)

end JsonWriter

namespace ControllerObject

inductive Step where
  | Initializing
  | DialogsList
  | PersonalInfo
  | Userpics
  | Stories
  | ProfileMusic
  | Contacts
  | Sessions
  | OtherData
  | Dialogs
  | Topic
deriving DecidableEq, Repr

def normalizeSettings (settings : Settings) : Settings :=
  if settings.onlySinglePeer then { settings with types := AnyChatsMask } else settings

/-- `Output::NormalizePath`: the absolute path, and the folder made in it, if one was. -/
def normalizePath (path : Bytes) (folder : Option Bytes) : Bytes :=
  let result := if path.getLast? = some 0x2f then path else path ++ ascii "/"
  match folder with
  | none => result
  | some name => result ++ (name ++ ascii "/")

def fillExportSteps (s : Settings) : List Step :=
  let when (mask : List SettingsType) (step : Step) := if s.hasAny mask then [step] else []
  if s.onlySingleTopic then
    [.Initializing, .Topic]
  else
    [.Initializing] ++ when AnyChatsMask .DialogsList ++ when [.PersonalInfo] .PersonalInfo ++
      when [.Userpics] .Userpics ++ when [.Stories] .Stories ++
      when [.ProfileMusic] .ProfileMusic ++ when [.Contacts] .Contacts ++
      when [.Sessions] .Sessions ++ when [.OtherData] .OtherData ++ when AnyChatsMask .Dialogs

/-- The calls for one dialog. -/
def dialogCalls (d : Dialog) : List Call :=
  [.writeDialogStart d.info] ++ d.slices.map .writeDialogSlice ++ [.writeDialogEnd]

/-- The calls of one step; a topic's end is the end of all. -/
def stepCalls (s : Settings) (environment : Environment) (a : Answers) : Step → List Call
  | .Initializing => [.start s environment]
  | .DialogsList => []
  | .PersonalInfo => [.writePersonal a.personal]
  | .Userpics => [.writeUserpicsStart] ++ a.userpics.map .writeUserpicsSlice ++ [.writeUserpicsEnd]
  | .Stories => [.writeStoriesStart] ++ a.stories.map .writeStoriesSlice ++ [.writeStoriesEnd]
  | .ProfileMusic => [.writeProfileMusicStart] ++ a.profileMusic.map .writeProfileMusicSlice ++
      [.writeProfileMusicEnd]
  | .Contacts => [.writeContactsList a.contacts]
  | .Sessions => [.writeSessionsList a.sessions]
  | .OtherData => [.writeOtherData a.otherData]
  | .Dialogs => [.writeDialogsStart] ++ a.dialogs.flatMap dialogCalls ++ [.writeDialogsEnd]
  | .Topic => dialogCalls a.topic

/-- The writer's settings after `startExport`. -/
def exportSettings (settings : Settings) (folder : Option Bytes) : Settings :=
  let s := normalizeSettings settings
  { s with path := normalizePath s.path folder }

/-- **The calls of an export**, from `start` to `finish`. -/
def calls (settings : Settings) (folder : Option Bytes) (environment : Environment)
    (a : Answers) : List Call :=
  let s := exportSettings settings folder
  (fillExportSteps s).flatMap (stepCalls s environment a) ++ [.finish]

/-- The writer after a whole export. -/
def run (p : Platform) (settings : Settings) (folder : Option Bytes) (environment : Environment)
    (a : Answers) : Option JsonWriter :=
  JsonWriter.run p (calls settings folder environment a) {}

end ControllerObject

end Export

end MessengerClient
