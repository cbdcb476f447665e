import MessengerClient.JsonWriter.Blocks

/-!
# MessengerClient.JsonWriter.Calls

What each call does to the writer (`Writes`), given that the serialized leaves are
values: a section starts and ends in the main object, a dialog ends in a list of dialogs,
and `writeDialogsEnd` closes that list, or too much when there is none.
-/

namespace MessengerClient

namespace Export

open Json

/-! ## Leaves -/

/-- The dialog's own values and its messages. -/
structure DialogLeaves (d : Dialog) : Prop where
  name : Value (stringAllowNull d.info.name)
  id : Value (numberToString (peerToBareId d.info.peerId))
  messages : ∀ list ∈ d.slices, ∀ message ∈ list, message.tree.Leaves

mutual

/-- Numbers, strings and keys are serialized to what they are. -/
def QJsonValue.Leaves : QJsonValue → Prop
  | .double text => Value text
  | .string value => Value (serializeString value)
  | .array values => QJsonValue.ItemLeaves values
  | .object members => QJsonValue.MemberLeaves members
  | _ => True

def QJsonValue.ItemLeaves : List QJsonValue → Prop
  | [] => True
  | value :: values => value.Leaves ∧ QJsonValue.ItemLeaves values

def QJsonValue.MemberLeaves : List (Bytes × QJsonValue) → Prop
  | [] => True
  | (key, value) :: members =>
    IsString (serializeString key) ∧ value.Leaves ∧ QJsonValue.MemberLeaves members

end

def QJsonDocument.Leaves : QJsonDocument → Prop
  | .object members => QJsonValue.MemberLeaves members
  | .array values => QJsonValue.ItemLeaves values

/-- The descriptions are serialized to values. -/
structure Environment.Leaves (e : Environment) : Prop where
  telegram : Value (serializeString e.aboutTelegram)
  contacts : Value (serializeString e.aboutContacts)
  frequent : Value (serializeString e.aboutFrequent)
  sessions : Value (serializeString e.aboutSessions)
  webSessions : Value (serializeString e.aboutWebSessions)
  chats : Value (serializeString e.aboutChats)
  leftChats : Value (serializeString e.aboutLeftChats)

/-- **Every serialized leaf of an export is a value.** -/
structure Answers.Leaves (p : Platform) (a : Answers) : Prop where
  personal : (personalTree p a.personal).Leaves
  userpics : ∀ slice ∈ a.userpics, ∀ userpic ∈ slice.list, ∀ path ∈
    JsonWriter.photoPath userpic.file.toFile, (photoTree p userpic.date path).Leaves
  stories : ∀ slice ∈ a.stories, ∀ story ∈ slice, ∀ path ∈
    JsonWriter.photoPath story.file.toFile, (storyTree p story path).Leaves
  profileMusic : ∀ slice ∈ a.profileMusic, ∀ message ∈ slice, message.tree.Leaves
  contacts : ∀ contact ∈ a.contacts.list, (contactTree p contact).Leaves
  correspondents : ∀ top ∈ a.contacts.correspondents, (topPeerTree "people" top).Leaves
  inlineBots : ∀ top ∈ a.contacts.inlineBots, (topPeerTree "inline_bots" top).Leaves
  phoneCalls : ∀ top ∈ a.contacts.phoneCalls, (topPeerTree "calls" top).Leaves
  sessions : ∀ session ∈ a.sessions.list, (sessionTree p session).Leaves
  webSessions : ∀ session ∈ a.sessions.webList, (webSessionTree p session).Leaves
  otherData : ∀ document ∈ a.otherData.document, document.Leaves
  dialogs : ∀ d ∈ a.dialogs, DialogLeaves d
  topic : DialogLeaves a.topic

namespace JsonWriter

/-! ## Calls -/

/-- The writer of an export under way, at a position in the file. -/
structure At (s : Settings) (e : Environment) (mode : DialogsMode)
    (P : JsonWriter → Bytes → Prop) (w : JsonWriter) : Prop where
  output : w.output.isSome
  settings : w.settings = s
  environment : w.environment = e
  dialogsMode : w.dialogsMode = mode
  position : P w w.written

/-- A call goes well and leads from one condition to another. -/
def Writes (m : JsonWriter → Option JsonWriter) (P Q : JsonWriter → Prop) : Prop :=
  ∀ w, P w → ∃ w', m w = some w' ∧ Q w'

variable {s : Settings} {e : Environment} {mode : DialogsMode} {p : Platform}
  {m n : JsonWriter → Option JsonWriter} {A B C : JsonWriter → Prop}
  {P Q : JsonWriter → Bytes → Prop} {b : Block} {c : Container} {cs : List Container}

theorem Writes.bind (hm : Writes m A B) (hn : Writes n B C) :
    Writes (fun w => (m w).bind n) A C := by
  intro w hA
  obtain ⟨w', hw', hB⟩ := hm w hA
  obtain ⟨w'', hw'', hC⟩ := hn w' hB
  exact ⟨w'', by simp only [hw', Option.bind_some, hw''], hC⟩

theorem At.isNone {w : JsonWriter} (h : At s e mode P w) : w.output.isNone = false := by
  rw [Option.isNone_eq_false_iff]
  exact h.output

/-- What a position says does not depend on what the file is. -/
def Local (Q : JsonWriter → Bytes → Prop) : Prop :=
  ∀ w t output, Q w t → Q { w with output := output } t

theorem local_betweenItems : Local (BetweenItems cs) := fun _ _ _ h => h

theorem local_beforeValue : Local (BeforeValue cs) := fun _ _ _ h => h

/-- The block is added to the file. -/
theorem at_written {w w' : JsonWriter} {bytes : Bytes} (h : At s e mode P w) (hframe : Frame w w')
    (hQ : Q w' (w.written ++ bytes)) (hlocal : Local Q) :
    At s e mode Q { w' with output := w'.output.map (· ++ [bytes]) } := by
  obtain ⟨blocks, hblocks⟩ := Option.isSome_iff_exists.mp h.output
  refine ⟨?_, hframe.settings.trans h.settings, hframe.environment.trans h.environment,
    hframe.dialogsMode.trans h.dialogsMode, ?_⟩
  · simp [hframe.output, hblocks]
  · have hwritten : written { w' with output := w'.output.map (· ++ [bytes]) } =
        w.written ++ bytes := by simp [written, hframe.output, hblocks]
    rw [hwritten]
    exact hlocal w' _ _ hQ

theorem writes_writeBlock (hb : Emits b P Q) (hlocal : Local Q) :
    Writes (writeBlock b) (At s e mode P) (At s e mode Q) := by
  intro w h
  obtain ⟨bytes, w', hbytes, hQ, hframe⟩ := hb w w.written h.output h.position
  refine ⟨_, ?_, at_written h hframe hQ hlocal⟩
  rw [writeBlock, h.isNone, if_neg Bool.false_ne_true, hbytes]
  rfl

theorem run_append (calls calls' : List Call) (w : JsonWriter) :
    run p (calls ++ calls') w = (run p calls w).bind (run p calls') := by
  induction calls generalizing w with
  | nil => rfl
  | cons call calls ih =>
    rw [List.cons_append, run, run, Option.bind_assoc]
    exact congrArg _ (funext ih)

theorem writes_run_append {calls calls' : List Call} (h : Writes (run p calls) A B)
    (h' : Writes (run p calls') B C) : Writes (run p (calls ++ calls')) A C := by
  intro w hA
  rw [run_append]
  exact h.bind h' w hA

theorem writes_run_one {call : Call} (h : Writes (perform p call) A B) :
    Writes (run p [call]) A B := by
  intro w hA
  obtain ⟨w', hw', hB⟩ := h w hA
  exact ⟨w', by rw [run, hw']; rfl, hB⟩

theorem writes_run_map {α : Type} {f : α → Call} {l : List α}
    (h : ∀ x ∈ l, Writes (perform p (f x)) A A) : Writes (run p (l.map f)) A A := by
  induction l with
  | nil => exact fun w hA => ⟨w, rfl, hA⟩
  | cons x l ih =>
    rw [List.map_cons, ← List.singleton_append]
    exact writes_run_append (writes_run_one (h x (by simp)))
      (ih fun y hy => h y (List.mem_cons_of_mem x hy))

theorem writes_run_flatMap {α : Type} {f : α → List Call} {l : List α}
    (h : ∀ x ∈ l, Writes (run p (f x)) A A) : Writes (run p (l.flatMap f)) A A := by
  induction l with
  | nil => exact fun w hA => ⟨w, rfl, hA⟩
  | cons x l ih =>
    rw [List.flatMap_cons]
    exact writes_run_append (h x (by simp)) (ih fun y hy => h y (List.mem_cons_of_mem x hy))

/-! ## Sections -/

/-- Between two sections of the main object. -/
def InMain (s : Settings) (e : Environment) : JsonWriter → Prop :=
  At s e .None (BetweenItems [.object])

theorem emits_listItem {α : Type} {tree : α → Tree} {x : α} (h : (tree x).Leaves)
    (hplain : (tree x).plainKeys) :
    Emits (listItem tree x) (BetweenItems (.array :: cs)) (BetweenItems (.array :: cs)) :=
  emits_arrayItemStart.append (emits_serialize h hplain)

theorem emits_aboutListStart {key : String} {about : Bytes} (hkey : plainKey (ascii key))
    (habout : Value (serializeString about)) :
    Emits (aboutListStart key about) (BetweenItems (.object :: cs))
      (BetweenItems (.array :: .object :: .object :: cs)) :=
  (emits_objectItemStart hkey).append (emits_pushNesting .object)
    |>.append (emits_objectItemStart rfl) |>.append (emits_text habout)
    |>.append (emits_objectItemStart rfl) |>.append (emits_pushNesting .array)

theorem emits_aboutListEnd {c' : Container} :
    Emits aboutListEnd (BetweenItems (c :: c' :: cs)) (BetweenItems cs) :=
  emits_popNesting.append emits_popNesting

theorem writes_personal {data : PersonalInfo} (h : (personalTree p data).Leaves) :
    Writes (writePersonal p data) (InMain s e) (InMain s e) :=
  writes_writeBlock ((emits_objectItemStart rfl).append (emits_serialize h rfl))
    local_betweenItems

theorem writes_listStart {key : String} (hkey : plainKey (ascii key)) :
    Writes (writeListStart key) (InMain s e) (At s e .None (BetweenItems [.array, .object])) :=
  writes_writeBlock ((emits_objectItemStart hkey).append (emits_pushNesting .array))
    local_betweenItems

theorem writes_listEnd :
    Writes writeListEnd (At s e .None (BetweenItems [.array, .object])) (InMain s e) :=
  writes_writeBlock emits_popNesting local_betweenItems

/-- A file that was processed passes the `Assert` and has a text for its path. -/
theorem emits_fileItem {file : ProcessedFile} {tree : Bytes → Tree}
    (h : ∀ path ∈ photoPath file.toFile, (tree path).Leaves)
    (hplain : ∀ path, (tree path).plainKeys) :
    Emits (fileItem file.toFile tree) (BetweenItems (.array :: cs))
      (BetweenItems (.array :: cs)) := by
  rw [fileItem, if_pos file.processed]
  cases hpath : photoPath file.toFile with
  | none =>
    have hdates := file.undated
    revert hpath hdates
    rw [photoPath]
    cases file.skipReason <;> simp
  | some path => exact emits_arrayItemStart.append (emits_serialize (h path hpath) (hplain path))

theorem writes_userpicsSlice {data : UserpicsSlice} (h : ∀ userpic ∈ data.list, ∀ path ∈
    photoPath userpic.file.toFile, (photoTree p userpic.date path).Leaves) :
    Writes (writeUserpicsSlice p data.list) (At s e .None (BetweenItems [.array, .object]))
      (At s e .None (BetweenItems [.array, .object])) := by
  intro w hw
  rw [writeUserpicsSlice, if_neg (by simp [data.ne_nil])]
  exact writes_writeBlock (Emits.forEach fun userpic huserpic =>
    emits_fileItem (h userpic huserpic) fun _ => rfl) local_betweenItems w hw

theorem writes_storiesSlice {data : List Story} (h : ∀ story ∈ data, ∀ path ∈
    photoPath story.file.toFile, (storyTree p story path).Leaves) :
    Writes (writeStoriesSlice p data) (At s e .None (BetweenItems [.array, .object]))
      (At s e .None (BetweenItems [.array, .object])) := by
  intro w hw
  rw [writeStoriesSlice, hw.isNone, if_neg Bool.false_ne_true]
  split
  · exact ⟨w, rfl, hw⟩
  · exact writes_writeBlock (Emits.forEach fun story hstory =>
      emits_fileItem (h story hstory) fun _ => rfl) local_betweenItems w hw

theorem Message.plainKeys (message : Message) : message.tree.plainKeys := by
  rw [Message.tree, Tree.plainKeys]
  exact message.plain

theorem writes_profileMusicSlice {data : List Message}
    (h : ∀ message ∈ data, message.tree.Leaves) :
    Writes (writeProfileMusicSlice data) (At s e .None (BetweenItems [.array, .object]))
      (At s e .None (BetweenItems [.array, .object])) := by
  intro w hw
  rw [writeProfileMusicSlice, hw.isNone, if_neg Bool.false_ne_true]
  split
  · exact ⟨w, rfl, hw⟩
  · exact writes_writeBlock (Emits.forEach fun message hmessage =>
      emits_arrayItemStart.append (emits_serialize (h message hmessage)
        (Message.plainKeys message))) local_betweenItems w hw

theorem contactTree_plainKeys (contact : ContactInfo) : (contactTree p contact).plainKeys := by
  rw [contactTree]
  split
  · rfl
  · rfl

theorem writes_contactsList {a : Answers} (he : e.Leaves) (h : a.Leaves p) :
    Writes (writeContactsList p a.contacts) (InMain s e) (InMain s e) := by
  intro w hw
  rw [writeContactsList, hw.isNone, if_neg Bool.false_ne_true]
  have hsaved : Writes (writeSavedContacts p a.contacts) (InMain s e) (InMain s e) := by
    intro w hw
    rw [writeSavedContacts, hw.environment]
    exact writes_writeBlock ((emits_aboutListStart rfl he.contacts).append
      (Emits.forEach fun contact hcontact => emits_listItem (h.contacts contact hcontact)
        (contactTree_plainKeys contact)) |>.append emits_aboutListEnd) local_betweenItems w hw
  have hfrequent : Writes (writeFrequentContacts a.contacts) (InMain s e) (InMain s e) := by
    intro w hw
    rw [writeFrequentContacts, hw.environment]
    exact writes_writeBlock ((emits_aboutListStart rfl he.frequent).append
      (Emits.forEach fun top htop => emits_listItem (h.correspondents top htop) rfl)
      |>.append (Emits.forEach fun top htop => emits_listItem (h.inlineBots top htop) rfl)
      |>.append (Emits.forEach fun top htop => emits_listItem (h.phoneCalls top htop) rfl)
      |>.append emits_aboutListEnd) local_betweenItems w hw
  exact hsaved.bind hfrequent w hw

theorem writes_sessionsList {a : Answers} (he : e.Leaves) (h : a.Leaves p) :
    Writes (writeSessionsList p a.sessions) (InMain s e) (InMain s e) := by
  intro w hw
  rw [writeSessionsList, hw.isNone, if_neg Bool.false_ne_true]
  have hsessions : Writes (writeSessions p a.sessions) (InMain s e) (InMain s e) := by
    intro w hw
    rw [writeSessions, hw.environment]
    exact writes_writeBlock ((emits_aboutListStart rfl he.sessions).append
      (Emits.forEach fun session hsession => emits_listItem (h.sessions session hsession) rfl)
      |>.append emits_aboutListEnd) local_betweenItems w hw
  have hweb : Writes (writeWebSessions p a.sessions) (InMain s e) (InMain s e) := by
    intro w hw
    rw [writeWebSessions, hw.environment]
    exact writes_writeBlock ((emits_aboutListStart rfl he.webSessions).append
      (Emits.forEach fun session hsession => emits_listItem (h.webSessions session hsession) rfl)
      |>.append emits_aboutListEnd) local_betweenItems w hw
  exact hsessions.bind hweb w hw

/-! ## Other data -/

mutual

theorem emits_pushValue (cs : List Container) : ∀ value : QJsonValue, value.isUndefined = false →
    value.Leaves → Emits (pushValue value) (BeforeValue cs) (BetweenItems cs)
  | .null, _, _ => by
    rw [pushValue]
    exact emits_text Value.null
  | .bool value, _, _ => by
    rw [pushValue]
    exact emits_text (Value.bool value)
  | .double text, _, h => by
    rw [pushValue]
    exact emits_text (by simpa [QJsonValue.Leaves] using h)
  | .string value, _, h => by
    rw [pushValue]
    exact emits_text (by simpa [QJsonValue.Leaves] using h)
  | .array values, _, h => by
    rw [QJsonValue.Leaves] at h
    rw [pushValue]
    exact (emits_pushNesting .array).append (emits_pushItems cs values h)
      |>.append emits_popNesting
  | .object members, _, h => by
    rw [QJsonValue.Leaves] at h
    rw [pushValue]
    exact (emits_pushNesting .object).append (emits_pushMembers cs members h)
      |>.append emits_popNesting
  | .undefined, hdefined, _ => by simp [QJsonValue.isUndefined] at hdefined

theorem emits_pushItems (cs : List Container) : ∀ values : List QJsonValue,
    QJsonValue.ItemLeaves values →
    Emits (pushItems values) (BetweenItems (.array :: cs)) (BetweenItems (.array :: cs))
  | [], _ => by
    rw [pushItems]
    exact emits_empty
  | value :: values, h => by
    rw [QJsonValue.ItemLeaves] at h
    rw [pushItems]
    refine Emits.append ?_ (emits_pushItems cs values h.2)
    cases hdefined : value.isUndefined with
    | true => exact emits_empty
    | false =>
      exact emits_arrayItemStart.append (emits_pushValue (.array :: cs) value hdefined h.1)

theorem emits_pushMembers (cs : List Container) : ∀ members : List (Bytes × QJsonValue),
    QJsonValue.MemberLeaves members →
    Emits (pushMembers members) (BetweenItems (.object :: cs)) (BetweenItems (.object :: cs))
  | [], _ => by
    rw [pushMembers]
    exact emits_empty
  | (key, value) :: members, h => by
    rw [QJsonValue.MemberLeaves] at h
    rw [pushMembers]
    refine Emits.append ?_ (emits_pushMembers cs members h.2.2)
    cases hdefined : value.isUndefined with
    | true => exact emits_empty
    | false =>
      exact (emits_objectItem h.1).append (emits_pushValue (.object :: cs) value hdefined h.2.1)

end

theorem emits_pushDocument {document : QJsonDocument} (h : document.Leaves) :
    Emits (pushDocument document) (BeforeValue cs) (BetweenItems cs) := by
  cases document with
  | object members => exact emits_pushValue cs (.object members) rfl (by simpa [QJsonValue.Leaves])
  | array values => exact emits_pushValue cs (.array values) rfl (by simpa [QJsonValue.Leaves])

/-- The file of the other data was loaded. -/
def OtherDataReady (data : OtherData) : Prop := data.skipReason = .None ∧ data.relativePath ≠ []

theorem writes_otherData {data : OtherData} (hready : OtherDataReady data)
    (h : ∀ document ∈ data.document, document.Leaves) :
    Writes (writeOtherData data) (InMain s e) (InMain s e) := by
  intro w hw
  rw [writeOtherData, if_neg (by simp [hw.isNone, hready.1, hready.2])]
  cases hdocument : data.document with
  | none => exact ⟨w, rfl, hw⟩
  | some document =>
    exact writes_writeBlock ((emits_objectItemStart rfl).append
      (emits_pushDocument (h document hdocument))) local_betweenItems w hw

theorem otherData_fails {data : OtherData} (h : ¬ OtherDataReady data) (w : JsonWriter) :
    writeOtherData data w = none := by
  rw [writeOtherData, if_pos]
  by_cases hskip : data.skipReason = .None
  · exact .inr (.inr (by_contra fun hpath => h ⟨hskip, hpath⟩))
  · exact .inr (.inl hskip)

/-! ## Dialogs -/

theorem typeString_leaf (type : DialogType) : Value (stringAllowNull (ascii (typeString type))) := by
  have hstring {text : Bytes} (hplain : plainKey text) : Value (serializeString text) :=
    Value.string (isString_serializeString hplain)
  cases type with
  | Unknown => exact Value.null
  | _ => exact hstring rfl

theorem emits_dialogName {d : Dialog} (h : DialogLeaves d) :
    Emits (dialogName d.info) (BetweenItems (.object :: cs)) (BetweenItems (.object :: cs)) := by
  rw [dialogName]
  split
  · exact (emits_objectItemStart rfl).append (emits_text h.name)
  · exact emits_empty

theorem emits_dialogStart {d : Dialog} (h : DialogLeaves d) :
    Emits (dialogStart d.info) (BeforeValue cs) (BetweenItems (.array :: .object :: cs)) :=
  (emits_pushNesting .object).append (emits_dialogName h)
    |>.append (emits_objectItemStart rfl) |>.append (emits_text (typeString_leaf d.info.type))
    |>.append (emits_objectItemStart rfl) |>.append (emits_text h.id)
    |>.append (emits_objectItemStart rfl) |>.append (emits_pushNesting .array)

theorem emits_dialogSlice {list : List Message} (h : ∀ message ∈ list, message.tree.Leaves) :
    Emits (dialogSlice s list) (BetweenItems (.array :: cs)) (BetweenItems (.array :: cs)) := by
  refine Emits.forEach fun message hmessage => ?_
  split
  · exact emits_empty
  · exact emits_arrayItemStart.append (emits_serialize (h message hmessage)
      (Message.plainKeys message))

theorem writes_dialogSlice {list : List Message} (h : ∀ message ∈ list, message.tree.Leaves) :
    Writes (writeDialogSlice list) (At s e mode (BetweenItems (.array :: cs)))
      (At s e mode (BetweenItems (.array :: cs))) := by
  intro w hw
  obtain ⟨bytes, w', hbytes, hQ, hframe⟩ :=
    emits_dialogSlice (s := w.settings) h w w.written hw.output hw.position
  have hwritten := at_written hw hframe hQ local_betweenItems
  simp only [writeDialogSlice, hw.isNone, Bool.false_eq_true, if_false, hbytes, Option.map_some]
  cases hempty : bytes.isEmpty with
  | true =>
    refine ⟨w', by simp, ?_⟩
    rw [List.isEmpty_iff] at hempty
    have hsame : written w' = w.written := by rw [written, written, hframe.output]
    rw [hempty, List.append_nil, ← hsame] at hQ
    exact ⟨hframe.output ▸ hw.output, hwritten.settings, hwritten.environment,
      hwritten.dialogsMode, hQ⟩
  | false => exact ⟨_, by simp, hwritten⟩

theorem writes_dialogEnd :
    Writes writeDialogEnd (At s e mode (BetweenItems (.array :: .object :: cs)))
      (At s e mode (BetweenItems cs)) :=
  writes_writeBlock (emits_popNesting.append emits_popNesting) local_betweenItems

/-- In a list of dialogs, of either kind. -/
def InList (s : Settings) (e : Environment) (w : JsonWriter) : Prop :=
  ∃ mode ≠ DialogsMode.None, At s e mode (BetweenItems [.array, .object, .object]) w

theorem writes_chatsEnd : Writes writeChatsEnd
    (At s e mode (BetweenItems [.array, .object, .object])) (At s e mode (BetweenItems [.object])) :=
  writes_writeBlock emits_aboutListEnd local_betweenItems

theorem writes_chatsStart {key : String} {about : Bytes} (hkey : plainKey (ascii key))
    (habout : Value (serializeString about)) : Writes (writeChatsStart key about)
    (At s e mode (BetweenItems [.object])) (At s e mode (BetweenItems [.array, .object, .object])) :=
  writes_writeBlock (emits_aboutListStart hkey habout) local_betweenItems

def modeOf (isLeftChannel : Bool) : DialogsMode := if isLeftChannel then .Left else .Chats

/-- The end of `validateDialogsMode`, once no list is open. -/
def openList (isLeftChannel : Bool) (w : JsonWriter) : Option JsonWriter :=
  writeChatsStart (if isLeftChannel then "left_chats" else "chats")
    (if isLeftChannel then w.environment.aboutLeftChats else w.environment.aboutChats)
    { w with dialogsMode := modeOf isLeftChannel }

theorem validateDialogsMode_eq (isLeftChannel : Bool) (w : JsonWriter) :
    validateDialogsMode isLeftChannel w = if w.dialogsMode = modeOf isLeftChannel then some w else
      (if w.dialogsMode ≠ .None then writeChatsEnd w else some w).bind (openList isLeftChannel) :=
  rfl

theorem modeOf_ne (isLeftChannel : Bool) : modeOf isLeftChannel ≠ .None := by
  cases isLeftChannel <;> decide

theorem writes_openList (he : e.Leaves) (isLeftChannel : Bool) :
    Writes (openList isLeftChannel) (At s e mode (BetweenItems [.object])) (InList s e) := by
  intro w hw
  have hmode : At s e (modeOf isLeftChannel) (BetweenItems [.object])
      { w with dialogsMode := modeOf isLeftChannel } :=
    ⟨hw.output, hw.settings, hw.environment, rfl, hw.position⟩
  obtain rfl := hw.environment
  cases isLeftChannel with
  | true =>
    have hplain : plainKey (ascii "left_chats") := rfl
    obtain ⟨w', hw', hlist⟩ := writes_chatsStart hplain he.leftChats _ hmode
    exact ⟨w', hw', _, modeOf_ne true, hlist⟩
  | false =>
    have hplain : plainKey (ascii "chats") := rfl
    obtain ⟨w', hw', hlist⟩ := writes_chatsStart hplain he.chats _ hmode
    exact ⟨w', hw', _, modeOf_ne false, hlist⟩

/-- The list of a dialog is opened when there is another one, or none at all. -/
theorem writes_validateDialogsMode (he : e.Leaves) (isLeftChannel : Bool) :
    Writes (validateDialogsMode isLeftChannel) (fun w => InMain s e w ∨ InList s e w)
      (InList s e) := by
  intro w hw
  rw [validateDialogsMode_eq]
  cases hw with
  | inl hmain =>
    have hne : w.dialogsMode ≠ modeOf isLeftChannel := hmain.dialogsMode ▸ (modeOf_ne _).symm
    rw [if_neg hne, if_neg (not_not.mpr hmain.dialogsMode), Option.bind_some]
    exact writes_openList he isLeftChannel w hmain
  | inr hlist =>
    obtain ⟨mode, hne, hopen⟩ := hlist
    split
    · exact ⟨w, rfl, mode, hne, hopen⟩
    · rw [if_pos (hopen.dialogsMode ▸ hne)]
      exact (writes_chatsEnd.bind (writes_openList he isLeftChannel)) w hopen

theorem writes_dialogRest {d : Dialog} (h : DialogLeaves d) :
    Writes (run p (d.slices.map .writeDialogSlice ++ [.writeDialogEnd]))
      (At s e mode (BetweenItems (.array :: .object :: cs))) (At s e mode (BetweenItems cs)) :=
  writes_run_append (writes_run_map fun list hlist => writes_dialogSlice (h.messages list hlist))
    (writes_run_one writes_dialogEnd)

/-- The only dialog of an export of one peer. -/
theorem writes_singleDialog {d : Dialog} (hsingle : s.onlySinglePeer = true)
    (h : DialogLeaves d) : Writes (run p (ControllerObject.dialogCalls d))
      (At s e .None (BeforeValue [])) (At s e .None (BetweenItems [])) := by
  have hstart : Writes (writeDialogStart d.info) (At s e .None (BeforeValue []))
      (At s e .None (BetweenItems [.array, .object])) := by
    intro w hw
    rw [writeDialogStart, hw.isNone, if_neg Bool.false_ne_true, hw.settings, if_pos hsingle]
    exact writes_writeBlock (emits_dialogStart h) local_betweenItems w hw
  rw [ControllerObject.dialogCalls, List.append_assoc]
  exact writes_run_append (writes_run_one hstart) (writes_dialogRest h)

/-- One dialog of a list. -/
theorem writes_dialog {d : Dialog} (hmany : s.onlySinglePeer = false) (he : e.Leaves)
    (h : DialogLeaves d) : Writes (run p (ControllerObject.dialogCalls d))
      (fun w => InMain s e w ∨ InList s e w) (InList s e) := by
  intro w hw
  obtain ⟨w', hw', mode, hne, hlist⟩ := writes_validateDialogsMode he d.info.isLeftChannel w hw
  have hstart : Writes (writeBlock (prepareArrayItemStart ++ dialogStart d.info))
      (At s e mode (BetweenItems [.array, .object, .object]))
      (At s e mode (BetweenItems [.array, .object, .array, .object, .object])) :=
    writes_writeBlock (emits_arrayItemStart.append (emits_dialogStart h)) local_betweenItems
  obtain ⟨w₁, hw₁, hopen⟩ := hstart w' hlist
  obtain ⟨w₂, hw₂, hclosed⟩ := writes_dialogRest (p := p) h w₁ hopen
  have hsettings : w.settings.onlySinglePeer = false ∧ w.output.isNone = false := by
    cases hw with
    | inl hmain => exact ⟨hmain.settings ▸ hmany, hmain.isNone⟩
    | inr hlist =>
      obtain ⟨_, _, hlist⟩ := hlist
      exact ⟨hlist.settings ▸ hmany, hlist.isNone⟩
  have hperform : perform p (.writeDialogStart d.info) w = some w₁ := by
    rw [perform, writeDialogStart, hsettings.2, if_neg Bool.false_ne_true, hsettings.1,
      if_neg Bool.false_ne_true, hw', Option.bind_some, hw₁]
  refine ⟨w₂, ?_, mode, hne, hclosed⟩
  rw [ControllerObject.dialogCalls, List.append_assoc, List.singleton_append, run, hperform,
    Option.bind_some, hw₂]

/-! ## The main object -/

/-- Nothing is open, and the file is a value. -/
def Closed (w : JsonWriter) : Prop := w.nesting = [] ∧ Value w.written

theorem start_single (hpath : s.path.getLast? = some 0x2f) (hsingle : s.onlySinglePeer = true) :
    Writes (start s e) (· = {}) (At s e .None (BeforeValue [])) := by
  rintro w rfl
  refine ⟨{ settings := s, environment := e, output := some [] }, ?_,
    rfl, rfl, rfl, rfl, rfl, .inl rfl, Hole.root⟩
  rw [start, if_neg (by simp [hpath]), if_pos hsingle]

theorem start_main (hpath : s.path.getLast? = some 0x2f) (hmany : s.onlySinglePeer = false)
    (he : e.Leaves) : Writes (start s e) (· = {}) (InMain s e) := by
  rintro w rfl
  have hfirst : At s e .None (BeforeValue [])
      { settings := s, environment := e, output := some [] } :=
    ⟨rfl, rfl, rfl, rfl, rfl, .inl rfl, Hole.root⟩
  rw [start, if_neg (by simp [hpath]), if_neg (by simp [hmany])]
  exact writes_writeBlock ((emits_pushNesting .object).append (emits_objectItemStart rfl)
    |>.append (emits_text he.telegram)) local_betweenItems _ hfirst

theorem finish_single (hsingle : s.onlySinglePeer = true) :
    Writes finish (At s e .None (BetweenItems [])) Closed := by
  intro w hw
  refine ⟨w, ?_, hw.position.1, hw.position.2⟩
  rw [finish, hw.isNone, if_neg Bool.false_ne_true, hw.settings, if_pos hsingle, hw.position.1]
  rfl

theorem finish_main (hmany : s.onlySinglePeer = false) :
    Writes finish (At s e mode (BetweenItems [.object])) Closed := by
  intro w hw
  obtain ⟨bytes, w', hbytes, hQ, hframe⟩ := emits_popNesting w w.written hw.output hw.position
  have hclosed := at_written hw hframe hQ local_betweenItems
  refine ⟨_, ?_, hclosed.position.1, hclosed.position.2⟩
  rw [finish, hw.isNone, if_neg Bool.false_ne_true, hw.settings, hmany,
    if_neg Bool.false_ne_true, hbytes, Option.bind_some]
  exact if_pos (List.isEmpty_iff.mpr hQ.1)

theorem writes_dialogsEnd (hmany : s.onlySinglePeer = false) :
    Writes writeDialogsEnd (InList s e) (fun w => ∃ mode, At s e mode (BetweenItems [.object]) w) := by
  intro w ⟨mode, _, hlist⟩
  obtain ⟨w', hw', hmain⟩ := writes_chatsEnd w hlist
  refine ⟨w', ?_, mode, hmain⟩
  rw [writeDialogsEnd, hlist.settings, hmany, if_neg Bool.false_ne_true, hw']

/-- With no dialog there is nothing to close but the main object. -/
theorem dialogsEnd_fails (hmany : s.onlySinglePeer = false) {w : JsonWriter} (hw : InMain s e w) :
    writeDialogsEnd w = none := by
  obtain ⟨bytes, w', hbytes, hQ, hframe⟩ := emits_popNesting w w.written hw.output hw.position
  have hsecond : popNesting w' = none := by
    rw [popNesting, hframe.output, hw.isNone, if_neg Bool.false_ne_true, hQ.1]
  have hblock : aboutListEnd w = none := append_eq_none hbytes hsecond
  rw [writeDialogsEnd, hw.settings, hmany, if_neg Bool.false_ne_true, writeChatsEnd, writeBlock,
    hw.isNone, if_neg Bool.false_ne_true, hblock]
  rfl

theorem run_none_of_mem {calls : List Call} {call : Call} (hmem : call ∈ calls)
    (h : ∀ w, perform p call w = none) (w : JsonWriter) : run p calls w = none := by
  induction calls generalizing w with
  | nil => cases hmem
  | cons head calls ih =>
    cases List.mem_cons.mp hmem with
    | inl heq => rw [run, ← heq, h, Option.bind_none]
    | inr htail => rw [run, funext (ih htail), Option.bind_fun_none]

end JsonWriter

end Export

end MessengerClient
