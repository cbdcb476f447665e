import MessengerClient.JsonWriter.Calls

/-!
# MessengerClient.JsonWriter.WellFormed

Whole exports.  A list of dialogs that is not empty is opened by its first dialog and
closed by `writeDialogsEnd`; an empty one is closed without having been opened.  So an
export is one JSON value exactly when it has a dialog, if it has a list of them, and its
other data was loaded (`run_wellFormed`).
-/

namespace MessengerClient

namespace Export

open Json

namespace ControllerObject

open JsonWriter

variable {s : Settings} {e : Environment} {p : Platform} {a : Answers}

/-! ## Whole exports -/

/-- The sections before the dialogs. -/
def sections (s : Settings) : List Step :=
  let when (mask : List SettingsType) (step : Step) := if s.hasAny mask then [step] else []
  when AnyChatsMask .DialogsList ++ when [.PersonalInfo] .PersonalInfo ++
    when [.Userpics] .Userpics ++ when [.Stories] .Stories ++
    when [.ProfileMusic] .ProfileMusic ++ when [.Contacts] .Contacts ++
    when [.Sessions] .Sessions ++ when [.OtherData] .OtherData

theorem fillExportSteps_many (hmany : s.onlySinglePeer = false) :
    fillExportSteps s = [.Initializing] ++ sections s ++
      (if s.hasAny AnyChatsMask then [.Dialogs] else []) := by
  have htopic : s.onlySingleTopic = false := by rw [Settings.onlySingleTopic, hmany, Bool.false_and]
  simp [fillExportSteps, sections, htopic]

theorem fillExportSteps_single (htopic : s.onlySingleTopic = false) (htypes : s.types = AnyChatsMask) :
    fillExportSteps s = [.Initializing, .DialogsList, .Dialogs] := by
  simp [fillExportSteps, htopic, Settings.hasAny, htypes, AnyChatsMask]

theorem mem_sections {step : Step} (h : step ∈ sections s) :
    step ≠ .Initializing ∧ step ≠ .Dialogs ∧ step ≠ .Topic ∧
      (step = .OtherData → s.hasAny [.OtherData]) := by
  simp only [sections, List.mem_append, List.mem_ite_nil_right, List.mem_singleton] at h
  grind

theorem otherData_mem_sections (h : s.hasAny [.OtherData]) : .OtherData ∈ sections s := by
  simp [sections, h]

theorem writes_section (he : e.Leaves) (ha : a.Leaves p) {step : Step} (h : step ∈ sections s)
    (hready : s.hasAny [.OtherData] → OtherDataReady a.otherData) :
    Writes (JsonWriter.run p (stepCalls s e a step)) (InMain s e) (InMain s e) := by
  obtain ⟨hinit, hdialogs, htopic, hother⟩ := mem_sections h
  have hlist {key : String} (hkey : plainKey (ascii key)) {α : Type} {f : α → Call} {l : List α}
      {first last : Call} (hfirst : perform p first = writeListStart key)
      (hslices : ∀ x ∈ l, Writes (perform p (f x)) (At s e .None (BetweenItems [.array, .object]))
        (At s e .None (BetweenItems [.array, .object])))
      (hlast : perform p last = writeListEnd) :
      Writes (JsonWriter.run p ([first] ++ l.map f ++ [last])) (InMain s e) (InMain s e) :=
    writes_run_append (writes_run_append (writes_run_one (hfirst ▸ writes_listStart hkey))
      (writes_run_map hslices)) (writes_run_one (hlast ▸ writes_listEnd))
  cases step with
  | Initializing => exact absurd rfl hinit
  | DialogsList => exact fun w hw => ⟨w, rfl, hw⟩
  | PersonalInfo => exact writes_run_one (writes_personal ha.personal)
  | Userpics =>
    have hkey : plainKey (ascii "profile_pictures") := rfl
    exact hlist hkey rfl (fun slice hslice => writes_userpicsSlice (ha.userpics slice hslice)) rfl
  | Stories =>
    have hkey : plainKey (ascii "stories") := rfl
    exact hlist hkey rfl (fun slice hslice => writes_storiesSlice (ha.stories slice hslice)) rfl
  | ProfileMusic =>
    have hkey : plainKey (ascii "profile_music") := rfl
    exact hlist hkey rfl
      (fun slice hslice => writes_profileMusicSlice (ha.profileMusic slice hslice)) rfl
  | Contacts => exact writes_run_one (writes_contactsList he ha)
  | Sessions => exact writes_run_one (writes_sessionsList he ha)
  | OtherData => exact writes_run_one (writes_otherData (hready (hother rfl)) ha.otherData)
  | Dialogs => exact absurd rfl hdialogs
  | Topic => exact absurd rfl htopic

/-- The export up to the dialogs. -/
theorem writes_sections (hpath : s.path.getLast? = some 0x2f) (hmany : s.onlySinglePeer = false)
    (he : e.Leaves) (ha : a.Leaves p)
    (hready : s.hasAny [.OtherData] → OtherDataReady a.otherData) :
    Writes (JsonWriter.run p (([Step.Initializing] ++ sections s).flatMap (stepCalls s e a)))
      (· = {}) (InMain s e) := by
  have hrest {steps : List Step} (h : ∀ step ∈ steps, step ∈ sections s) :
      Writes (JsonWriter.run p (steps.flatMap (stepCalls s e a))) (InMain s e) (InMain s e) :=
    writes_run_flatMap fun step hstep => writes_section he ha (h step hstep) hready
  rw [List.flatMap_append, List.flatMap_singleton]
  have hstart : Writes (JsonWriter.run p (stepCalls s e a .Initializing)) (· = {}) (InMain s e) :=
    writes_run_one (start_main hpath hmany he)
  exact writes_run_append hstart (hrest fun _ h => h)

/-- A list of dialogs that is not empty is opened and closed. -/
theorem writes_dialogs (hmany : s.onlySinglePeer = false) (he : e.Leaves) (ha : a.Leaves p)
    (hdialogs : a.dialogs ≠ []) :
    Writes (JsonWriter.run p (stepCalls s e a .Dialogs)) (InMain s e)
      (fun w => ∃ mode, At s e mode (BetweenItems [.object]) w) := by
  obtain ⟨d, dialogs, hsplit⟩ := List.exists_cons_of_ne_nil hdialogs
  have hleaves : ∀ d' ∈ d :: dialogs, DialogLeaves d' := hsplit ▸ ha.dialogs
  have hstart : Writes (JsonWriter.run p [.writeDialogsStart]) (InMain s e)
      (fun w => InMain s e w ∨ InList s e w) := fun w hw => ⟨w, rfl, .inl hw⟩
  have hrest : Writes (JsonWriter.run p (dialogs.flatMap dialogCalls)) (InList s e) (InList s e) :=
    writes_run_flatMap fun d' hd' w hw =>
      writes_dialog hmany he (hleaves d' (List.mem_cons_of_mem d hd')) w (.inr hw)
  rw [stepCalls, hsplit, List.flatMap_cons]
  exact writes_run_append (writes_run_append hstart
    (writes_run_append (writes_dialog hmany he (hleaves d (by simp))) hrest))
    (writes_run_one (writes_dialogsEnd hmany))

variable {settings : Settings} {folder : Option Bytes}

theorem normalizePath_getLast? (path : Bytes) (folder : Option Bytes) :
    (normalizePath path folder).getLast? = some 0x2f := by
  cases folder with
  | none =>
    by_cases hslash : path.getLast? = some 0x2f
    · simp [normalizePath, hslash]
    · simp [normalizePath, hslash, ascii]
  | some name => simp [normalizePath, ascii]

theorem path_exportSettings : (exportSettings settings folder).path.getLast? = some 0x2f :=
  normalizePath_getLast? _ _

theorem exportSettings_onlySinglePeer (settings : Settings) (folder : Option Bytes) :
    (exportSettings settings folder).onlySinglePeer = settings.onlySinglePeer := by
  rw [exportSettings, normalizeSettings]
  split
  · rfl
  · rfl

theorem exportSettings_onlySingleTopic (settings : Settings) (folder : Option Bytes) :
    (exportSettings settings folder).onlySingleTopic = settings.onlySingleTopic := by
  rw [exportSettings, normalizeSettings]
  split
  · rfl
  · rfl

theorem exportSettings_types_single (h : settings.onlySinglePeer = true) :
    (exportSettings settings folder).types = AnyChatsMask := by
  rw [exportSettings, normalizeSettings, if_pos h]

theorem exportSettings_hasAny (folder : Option Bytes) (h : settings.onlySinglePeer = false)
    (mask : List SettingsType) :
    (exportSettings settings folder).hasAny mask = settings.hasAny mask := by
  rw [exportSettings, normalizeSettings, if_neg (by simp [h])]
  rfl

/-- An export of everything has a dialog, if it has a list of them, and the file of its
other data was loaded. -/
def Complete (settings : Settings) (a : Answers) : Prop :=
  settings.onlySinglePeer = false →
    (settings.hasAny AnyChatsMask → a.dialogs ≠ []) ∧
    (settings.hasAny [.OtherData] → OtherDataReady a.otherData)

/-- The list of dialogs of one peer is the dialog, in no list. -/
theorem writes_dialogs_single (hsingle : s.onlySinglePeer = true) (ha : a.Leaves p) {d : Dialog}
    (hd : a.dialogs = [d]) : Writes (JsonWriter.run p (stepCalls s e a .Dialogs))
      (At s e .None (BeforeValue [])) (At s e .None (BetweenItems [])) := by
  have hstart : Writes (JsonWriter.run p [.writeDialogsStart]) (At s e .None (BeforeValue []))
      (At s e .None (BeforeValue [])) := fun w hw => ⟨w, rfl, hw⟩
  have hend : Writes writeDialogsEnd (At s e .None (BetweenItems []))
      (At s e .None (BetweenItems [])) := by
    intro w hw
    refine ⟨w, ?_, hw⟩
    rw [writeDialogsEnd, hw.settings, if_pos hsingle]
  have hdialog := writes_singleDialog (p := p) (e := e) hsingle (ha.dialogs d (by simp [hd]))
  rw [stepCalls, hd, List.flatMap_singleton]
  exact writes_run_append (writes_run_append hstart hdialog) (writes_run_one hend)

/-- An export of one peer, or of one topic of it. -/
theorem run_single (hsingle : settings.onlySinglePeer = true) (ha : a.Leaves p)
    (hone : settings.onlySingleTopic = false → ∃ d, a.dialogs = [d]) :
    ∃ w, run p settings folder e a = some w ∧ Closed w := by
  have hs := (exportSettings_onlySinglePeer settings folder).trans hsingle
  have hrun {steps : List Step} (hsteps : fillExportSteps (exportSettings settings folder) =
      .Initializing :: steps) (h : Writes (JsonWriter.run p
        (steps.flatMap (stepCalls (exportSettings settings folder) e a)))
        (At (exportSettings settings folder) e .None (BeforeValue []))
        (At (exportSettings settings folder) e .None (BetweenItems []))) :
      ∃ w, run p settings folder e a = some w ∧ Closed w := by
    have hstart : Writes (JsonWriter.run p (stepCalls (exportSettings settings folder) e a
        .Initializing)) _ _ := writes_run_one (start_single path_exportSettings hs)
    have hfinish : Writes (JsonWriter.run p [.finish])
        (At (exportSettings settings folder) e .None (BetweenItems [])) Closed :=
      writes_run_one (finish_single hs)
    simp only [run, calls]
    rw [hsteps, List.flatMap_cons]
    exact writes_run_append (writes_run_append hstart h) hfinish {} rfl
  cases htopic : settings.onlySingleTopic with
  | true =>
    have hsteps : fillExportSteps (exportSettings settings folder) = [.Initializing, .Topic] := by
      rw [fillExportSteps, exportSettings_onlySingleTopic, htopic, if_pos rfl]
    refine hrun hsteps ?_
    rw [List.flatMap_singleton]
    exact writes_singleDialog hs ha.topic
  | false =>
    obtain ⟨d, hd⟩ := hone htopic
    have hsteps := fillExportSteps_single
      ((exportSettings_onlySingleTopic settings folder).trans htopic)
      (exportSettings_types_single hsingle)
    refine hrun hsteps ?_
    rw [List.flatMap_cons, List.flatMap_singleton]
    exact writes_dialogs_single hs ha hd

/-- An export of everything that is complete. -/
theorem run_many (hmany : settings.onlySinglePeer = false) (he : e.Leaves) (ha : a.Leaves p)
    (h : Complete settings a) : ∃ w, run p settings folder e a = some w ∧ Closed w := by
  have hs := (exportSettings_onlySinglePeer settings folder).trans hmany
  have hsections := writes_sections path_exportSettings hs he ha
    (exportSettings_hasAny folder hmany [.OtherData] ▸ (h hmany).2)
  have hfinish {mode : DialogsMode} : Writes (JsonWriter.run p [.finish])
      (At (exportSettings settings folder) e mode (BetweenItems [.object])) Closed :=
    writes_run_one (finish_main hs)
  simp only [run, calls]
  rw [fillExportSteps_many hs, List.flatMap_append, exportSettings_hasAny folder hmany]
  cases hany : settings.hasAny AnyChatsMask with
  | true =>
    have hdialogs := writes_dialogs (p := p) hs he ha ((h hmany).1 hany)
    have hlast : Writes (JsonWriter.run p [.finish]) (fun w => ∃ mode,
        At (exportSettings settings folder) e mode (BetweenItems [.object]) w) Closed :=
      fun w ⟨_, hw⟩ => hfinish w hw
    rw [if_pos rfl, List.flatMap_singleton]
    exact writes_run_append (writes_run_append hsections hdialogs) hlast {} rfl
  | false =>
    rw [if_neg Bool.false_ne_true, List.flatMap_nil, List.append_nil]
    exact writes_run_append hsections hfinish {} rfl

/-- An export of everything that is not complete does not get to its end. -/
theorem run_incomplete (he : e.Leaves) (ha : a.Leaves p) (h : ¬ Complete settings a) :
    run p settings folder e a = none := by
  simp only [Complete, Classical.not_imp] at h
  obtain ⟨hmany, h⟩ := h
  have hs := (exportSettings_onlySinglePeer settings folder).trans hmany
  have hsteps := fillExportSteps_many hs
  simp only [run, calls]
  rw [hsteps, exportSettings_hasAny folder hmany]
  by_cases hready : settings.hasAny [.OtherData] → OtherDataReady a.otherData
  · have hempty : settings.hasAny AnyChatsMask ∧ a.dialogs = [] := by
      by_contra hne
      exact h ⟨fun hany hnil => hne ⟨hany, hnil⟩, hready⟩
    obtain ⟨w, hw, hmain⟩ := writes_sections (p := p) path_exportSettings hs he ha
      (exportSettings_hasAny folder hmany [.OtherData] ▸ hready) {} rfl
    rw [if_pos hempty.1, List.flatMap_append, run_append, run_append, hw, Option.bind_some,
      List.flatMap_singleton, stepCalls, hempty.2, List.flatMap_nil, List.append_nil,
      List.singleton_append, JsonWriter.run, perform, writeDialogsStart, Option.bind_some,
      JsonWriter.run, perform, dialogsEnd_fails hs hmain, Option.bind_none, Option.bind_none]
  · rw [Classical.not_imp] at hready
    have hstep : Step.OtherData ∈ sections (exportSettings settings folder) :=
      otherData_mem_sections (exportSettings_hasAny folder hmany _ ▸ hready.1)
    have hfails (w : JsonWriter) : perform p (.writeOtherData a.otherData) w = none :=
      otherData_fails hready.2 w
    refine run_none_of_mem ?_ hfails {}
    refine List.mem_append_left _ (List.mem_flatMap.mpr ⟨.OtherData, ?_, ?_⟩)
    · exact List.mem_append_left _ (List.mem_append_right _ hstep)
    · exact List.mem_singleton.mpr rfl

/-- **An export is well formed exactly when it is complete**: no check fails, nothing is
left open, and all that was written is one JSON value. -/
theorem run_wellFormed (p : Platform) (settings : Settings) (folder : Option Bytes)
    (e : Environment) (a : Answers) (he : e.Leaves) (ha : a.Leaves p)
    (hone : settings.onlySinglePeer = true → settings.onlySingleTopic = false →
      ∃ d, a.dialogs = [d]) :
    (∃ w, run p settings folder e a = some w ∧ w.nesting = [] ∧ Value w.written) ↔
      Complete settings a := by
  constructor
  · intro h
    by_contra hincomplete
    obtain ⟨w, hw, -⟩ := h
    rw [run_incomplete he ha hincomplete] at hw
    cases hw
  · intro h
    cases hsingle : settings.onlySinglePeer with
    | true => exact run_single hsingle ha (hone hsingle)
    | false => exact run_many hsingle he ha h

/-! ## An export of one chat, and of none -/

theorem leaves_record {values : List (String × Bytes)} (h : ∀ kv ∈ values, kv.2 ≠ [] → Value kv.2) :
    (record values).Leaves := by
  refine Tree.Leaves.object fun kv hkv hne => ?_
  obtain ⟨⟨key, value⟩, hmem, rfl⟩ := List.mem_map.mp hkv
  exact Tree.Leaves.leaf (h _ hmem fun hempty => hne (by simpa using hempty))

/-- Dates and phone numbers that are not written. -/
def blankPlatform : Platform := ⟨fun _ => [], fun _ => []⟩

def blankEnvironment : Environment := ⟨[], [], [], [], [], [], []⟩

def oneChat : Dialog :=
  { info := { type := .Personal, name := ascii "A", peerId := 1 }
    slices := [[⟨0, [(ascii "id", .leaf (ascii "null"))], rfl⟩]] }

/-- Nothing but some dialogs. -/
def dialogsOnly (dialogs : List Dialog) : Answers :=
  { personal := ⟨0, [], [], [], [], []⟩
    otherData := { relativePath := [], skipReason := .None, document := none }
    dialogs := dialogs
    topic := oneChat }

theorem value_digit {ch : UInt8} (h : isDigit ch) : Value [ch] := by
  refine Value.number ⟨[], [ch], [], [], by simp, ?_, .inl rfl, .inl rfl, rfl⟩
  by_cases hzero : ch = 0x30
  · exact .inl (by rw [hzero]; rfl)
  · exact .inr ⟨⟨by simp, by simpa using h⟩, by simpa using hzero⟩

theorem value_plain {text : Bytes} (h : plainKey text) : Value (serializeString text) :=
  Value.string (isString_serializeString h)

theorem blankEnvironment_leaves : blankEnvironment.Leaves :=
  have h : Value (serializeString []) := value_plain rfl
  ⟨h, h, h, h, h, h, h⟩

theorem oneChat_leaves : DialogLeaves oneChat := by
  have hname : Value (serializeString (ascii "A")) := value_plain rfl
  have hid : Value [0x31] := value_digit rfl
  refine ⟨hname, hid, fun list hlist => ?_⟩
  rw [oneChat, List.mem_singleton] at hlist
  subst hlist
  refine fun message hmessage => ?_
  rw [List.mem_singleton] at hmessage
  subst hmessage
  refine Tree.Leaves.object fun kv hkv _ => ?_
  rw [List.mem_singleton] at hkv
  subst hkv
  exact Tree.Leaves.leaf Value.null

theorem dialogsOnly_leaves {dialogs : List Dialog} (h : ∀ d ∈ dialogs, DialogLeaves d) :
    (dialogsOnly dialogs).Leaves blankPlatform := by
  have hnone {α : Type} {P : α → Prop} : ∀ x ∈ ([] : List α), P x := fun x hx => by cases hx
  refine ⟨leaves_record fun kv hkv _ => ?_, hnone, hnone, hnone, hnone, hnone, hnone, hnone, hnone,
    hnone, fun _ hdocument => (by cases hdocument), h, oneChat_leaves⟩
  simp only [List.mem_cons, List.not_mem_nil, or_false] at hkv
  rcases hkv with rfl | rfl | rfl | rfl | rfl | rfl
  · have hzero : numberToString 0 = [0x30] := by decide
    have hid : ((dialogsOnly dialogs).personal.userId : Int) = 0 := rfl
    rw [hid, hzero]
    exact value_digit rfl
  · exact value_plain rfl
  · exact value_plain rfl
  · exact value_plain rfl
  · contradiction
  · contradiction

theorem run_wellFormed_oneChat : ∃ w, run blankPlatform { types := [.PersonalChats] } none
    blankEnvironment (dialogsOnly [oneChat]) = some w ∧ w.nesting = [] ∧ Value w.written :=
  (run_wellFormed blankPlatform { types := [.PersonalChats] } none blankEnvironment
    (dialogsOnly [oneChat]) blankEnvironment_leaves
    (dialogsOnly_leaves fun _ h => List.mem_singleton.mp h ▸ oneChat_leaves)
    (fun h => by cases h)).mpr
    fun _ => ⟨fun _ => List.cons_ne_nil _ _, fun h => by cases h⟩

/-- With chats to export and no dialog at all, `writeDialogsEnd` closes what is not open. -/
theorem run_noDialogs : ¬ ∀ (p : Platform) (settings : Settings) (folder : Option Bytes)
    (e : Environment) (a : Answers), e.Leaves → a.Leaves p →
    (settings.onlySinglePeer = true → settings.onlySingleTopic = false → ∃ d, a.dialogs = [d]) →
    ∃ w, run p settings folder e a = some w ∧ w.nesting = [] ∧ Value w.written := by
  intro h
  obtain ⟨w, hw, -⟩ := h blankPlatform { types := [.PersonalChats] } none blankEnvironment
    (dialogsOnly []) blankEnvironment_leaves (dialogsOnly_leaves fun _ hd => by cases hd)
    (fun hsingle => by cases hsingle)
  have hnone : run blankPlatform { types := [.PersonalChats] } none blankEnvironment
      (dialogsOnly []) = none := rfl
  rw [hnone] at hw
  cases hw

end ControllerObject

end Export

end MessengerClient
