import MessengerClient.JsonWriter

/-!
# MessengerClient.JsonWriter.Blocks

What the pieces of a block do to the text: serialized objects and arrays are values
(`Tree.Leaves.value`), and every piece moves the writer from one position in the text to
another (`Emits`).
-/

namespace MessengerClient

namespace Export

open Json

/-! ## Keys and serialized values -/

theorem space_indentation (nesting : List Container) :
    Space (ascii "\n" ++ indentation nesting) :=
  Space.append (space_of_all rfl) (space_replicate _)

theorem chars_serializeChar {ch : UInt8} (rest : Bytes) (h : plainKey [ch]) :
    Chars (serializeChar ch rest) := by
  have hplain : 32 ≤ ch ∨ ch = 0x0a ∨ ch = 0x0d ∨ ch = 0x09 := by simpa [plainKey] using h
  have hescape {e : UInt8} (he : e ∈ ascii "\"\\/bfnrt") : Chars [0x5c, e] :=
    Chars.escape he Chars.nil
  rw [serializeChar]
  split_ifs with hn hr ht hquote hslash hlow hsep hline hpar
  · exact hescape (by decide)
  · exact hescape (by decide)
  · exact hescape (by decide)
  · exact hescape (by decide)
  · exact hescape (by decide)
  · rcases hplain with hge | h0 | h0 | h0
    · exact absurd hlow (UInt8.not_lt.mpr hge)
    · exact absurd h0 hn
    · exact absurd h0 hr
    · exact absurd h0 ht
  · exact Chars.unicode (a := 0x32) (b := 0x30) (c := 0x32) (d := 0x38) rfl rfl rfl rfl Chars.nil
  · exact Chars.unicode (a := 0x32) (b := 0x30) (c := 0x32) (d := 0x39) rfl rfl rfl rfl Chars.nil
  · exact Chars.plain (UInt8.not_lt.mp hlow) hquote hslash Chars.nil
  · exact Chars.plain (UInt8.not_lt.mp hlow) hquote hslash Chars.nil

/-- A text without other control characters is serialized to a string. -/
theorem isString_serializeString {value : Bytes} (h : plainKey value) :
    IsString (serializeString value) := by
  refine ⟨serializeChars value, ?_, rfl⟩
  induction value with
  | nil => exact Chars.nil
  | cons ch rest ih =>
    rw [plainKey, List.all_cons, Bool.and_eq_true] at h
    have hch : plainKey [ch] := by simpa [plainKey] using h.1
    exact Chars.append (chars_serializeChar rest hch) (ih h.2)

theorem label_key {key : Bytes} (h : IsString (serializeString key)) :
    Label .object (serializeString key ++ ascii ": ") :=
  ⟨serializeString key, [], ascii " ", h, Space.nil, space_of_all rfl, by simp [ascii]⟩

theorem separator_next (had : Bool) {next : Bytes} (h : Space next) :
    Separator had ((if had then ascii "," else []) ++ next) := by
  refine ⟨if had then [] else next, if had then next else [], ?_, ?_, ?_⟩
  · cases had
    · exact h
    · exact Space.nil
  · cases had
    · exact Space.nil
    · exact h
  · cases had
    · rfl
    · rfl

/-- An object is a value when its keys are strings and what it does not leave out are
values. -/
theorem items_objectItems {next : Bytes} (hnext : Space next) {values : List (Bytes × Bytes)}
    (h : ∀ kv ∈ values, IsString (serializeString kv.1) ∧ (kv.2 ≠ [] → Value kv.2)) (had : Bool)
    {t : Bytes} (ht : Items .object had t) :
    ∃ had', Items .object had' (t ++ objectItems next (!had) values) := by
  induction values generalizing had t with
  | nil => exact ⟨had, by simpa [objectItems] using ht⟩
  | cons kv values ih =>
    obtain ⟨hkey, hvalue⟩ := h kv (by simp)
    have hrest := fun kv' hkv' => h kv' (List.mem_cons_of_mem kv hkv')
    by_cases hempty : kv.2 = []
    · have hskip := ih hrest had ht
      simpa [objectItems, hempty] using hskip
    · have hstart : Start .object had
          (((if had then ascii "," else []) ++ next) ++ (serializeString kv.1 ++ ascii ": ")) :=
        ⟨_, _, separator_next had hnext, label_key hkey, rfl⟩
      obtain ⟨had', hitems⟩ := ih hrest true (Items.snoc ht hstart (hvalue hempty))
      refine ⟨had', ?_⟩
      cases had
      · simpa [objectItems, hempty] using hitems
      · simpa [objectItems, hempty] using hitems

theorem items_arrayItems {next : Bytes} (hnext : Space next) {values : List Bytes}
    (h : ∀ v ∈ values, Value v) (had : Bool) {t : Bytes} (ht : Items .array had t) :
    ∃ had', Items .array had' (t ++ arrayItems next (!had) values) := by
  induction values generalizing had t with
  | nil => exact ⟨had, by simpa [arrayItems] using ht⟩
  | cons v values ih =>
    have hstart : Start .array had (((if had then ascii "," else []) ++ next) ++ []) :=
      ⟨_, [], separator_next had hnext, rfl, rfl⟩
    obtain ⟨had', hitems⟩ := ih (fun v' hv' => h v' (List.mem_cons_of_mem v hv')) true
      (Items.snoc ht hstart (h v (by simp)))
    refine ⟨had', ?_⟩
    cases had
    · simpa [arrayItems] using hitems
    · simpa [arrayItems] using hitems

theorem value_serializeObject (nesting : List Container) {values : List (Bytes × Bytes)}
    (h : ∀ kv ∈ values, IsString (serializeString kv.1) ∧ (kv.2 ≠ [] → Value kv.2)) :
    Value (serializeObject nesting values) := by
  obtain ⟨had, hitems⟩ :=
    items_objectItems (space_indentation (.object :: nesting)) h false (Items.nil .object)
  have hvalue := Value.container hitems (space_indentation nesting)
  simpa [serializeObject] using hvalue

theorem value_serializeArray (nesting : List Container) {values : List Bytes}
    (h : ∀ v ∈ values, Value v) : Value (serializeArray nesting values) := by
  obtain ⟨had, hitems⟩ :=
    items_arrayItems (space_indentation (.array :: nesting)) h false (Items.nil .array)
  have hvalue := Value.container hitems (space_indentation nesting)
  simpa [serializeArray] using hvalue

namespace Tree

/-- **The serialized leaves are values**; one that is empty is left out of its object. -/
inductive Leaves : Tree → Prop where
  | leaf {text : Bytes} : Value text → Leaves (leaf text)
  | object {values : List (Bytes × Tree)} :
      (∀ kv ∈ values, kv.2 ≠ leaf [] → Leaves kv.2) → Leaves (object values)
  | array {values : List Tree} : (∀ v ∈ values, Leaves v) → Leaves (array values)

theorem mem_serializeFields {nesting : List Container} {values : List (Bytes × Tree)}
    {kv : Bytes × Bytes} (h : kv ∈ serializeFields nesting values) :
    ∃ v, (kv.1, v) ∈ values ∧ kv.2 = serialize nesting v := by
  induction values with
  | nil => simp [serializeFields] at h
  | cons head values ih =>
    rw [serializeFields] at h
    cases List.mem_cons.mp h with
    | inl heq => exact ⟨head.2, by simp [heq], by rw [heq]⟩
    | inr htail =>
      obtain ⟨v, hv, hkv⟩ := ih htail
      exact ⟨v, List.mem_cons_of_mem head hv, hkv⟩

theorem mem_serializeItems {nesting : List Container} {values : List Tree} {t : Bytes}
    (h : t ∈ serializeItems nesting values) : ∃ v ∈ values, t = serialize nesting v := by
  induction values with
  | nil => simp [serializeItems] at h
  | cons head values ih =>
    rw [serializeItems] at h
    cases List.mem_cons.mp h with
    | inl heq => exact ⟨head, by simp, heq⟩
    | inr htail =>
      obtain ⟨v, hv, ht⟩ := ih htail
      exact ⟨v, List.mem_cons_of_mem head hv, ht⟩

theorem of_plainFields {values : List (Bytes × Tree)} (h : plainFields values)
    {kv : Bytes × Tree} (hkv : kv ∈ values) : plainKey kv.1 ∧ plainKeys kv.2 := by
  induction values with
  | nil => cases hkv
  | cons head values ih =>
    rw [plainFields, Bool.and_eq_true, Bool.and_eq_true] at h
    cases List.mem_cons.mp hkv with
    | inl heq => exact heq ▸ h.1
    | inr htail => exact ih h.2 htail

theorem of_plainItems {values : List Tree} (h : plainItems values) {v : Tree} (hv : v ∈ values) :
    plainKeys v := by
  induction values with
  | nil => cases hv
  | cons head values ih =>
    rw [plainItems, Bool.and_eq_true] at h
    cases List.mem_cons.mp hv with
    | inl heq => exact heq ▸ h.1
    | inr htail => exact ih h.2 htail

/-- **What is serialized over leaves that are values is a value.** -/
theorem Leaves.value {tree : Tree} (h : Leaves tree) (hplain : plainKeys tree)
    (nesting : List Container) : Value (serialize nesting tree) := by
  induction h generalizing nesting with
  | leaf hvalue => exact hvalue
  | @object values _ ih =>
    rw [serialize]
    refine value_serializeObject nesting fun kv hkv => ?_
    obtain ⟨v, hv, htext⟩ := mem_serializeFields hkv
    obtain ⟨hkey, hsub⟩ := of_plainFields (by simpa [plainKeys] using hplain) hv
    refine ⟨isString_serializeString hkey, fun hne => ?_⟩
    have hleaf : v ≠ Tree.leaf [] := by
      rintro rfl
      exact hne (by rw [htext, serialize])
    exact htext ▸ ih _ hv hleaf hsub _
  | @array values _ ih =>
    rw [serialize]
    refine value_serializeArray nesting fun t ht => ?_
    obtain ⟨v, hv, htext⟩ := mem_serializeItems ht
    exact htext ▸ ih v hv (of_plainItems (by simpa [plainKeys] using hplain) hv) _

end Tree

namespace JsonWriter

/-! ## Positions -/

/-- The writer stands in the text before a value. -/
def BeforeValue (cs : List Container) (w : JsonWriter) (t : Bytes) : Prop :=
  w.nesting = cs ∧ (cs = [] ∨ w.currentNestingHadItem = true) ∧ Hole cs t

/-- The writer stands in the text between two items, or at its end. -/
def BetweenItems (cs : List Container) (w : JsonWriter) (t : Bytes) : Prop :=
  w.nesting = cs ∧ Between cs w.currentNestingHadItem t

/-- Only the position of the writer differs. -/
structure Frame (w w' : JsonWriter) : Prop where
  settings : w'.settings = w.settings
  environment : w'.environment = w.environment
  dialogsMode : w'.dialogsMode = w.dialogsMode
  output : w'.output = w.output

/-- **A block moves the writer** from one position to another, over what it adds to the
text. -/
def Emits (b : Block) (P Q : JsonWriter → Bytes → Prop) : Prop :=
  ∀ w t, w.output.isSome → P w t → ∃ s w', b w = some (s, w') ∧ Q w' (t ++ s) ∧ Frame w w'

theorem Frame.refl (w : JsonWriter) : Frame w w := ⟨rfl, rfl, rfl, rfl⟩

theorem Frame.trans {w w' w'' : JsonWriter} (h : Frame w w') (h' : Frame w' w'') : Frame w w'' :=
  ⟨h'.settings.trans h.settings, h'.environment.trans h.environment,
    h'.dialogsMode.trans h.dialogsMode, h'.output.trans h.output⟩

variable {a b : Block} {P Q R : JsonWriter → Bytes → Prop} {c : Container} {cs : List Container}

theorem emits_empty : Emits Block.empty P P := fun w t _ hP =>
  ⟨[], w, rfl, by rwa [List.append_nil], Frame.refl w⟩

theorem append_eq_some {w w' w'' : JsonWriter} {s t : Bytes} (ha : a w = some (s, w'))
    (hb : b w' = some (t, w'')) : (a ++ b) w = some (s ++ t, w'') := by
  have happend : (a ++ b) w = Block.append a b w := rfl
  simp only [happend, Block.append, ha, hb, Option.bind_some, Option.map_some]

theorem append_eq_none {w w' : JsonWriter} {s : Bytes} (ha : a w = some (s, w'))
    (hb : b w' = none) : (a ++ b) w = none := by
  have happend : (a ++ b) w = Block.append a b w := rfl
  simp only [happend, Block.append, ha, hb, Option.bind_some, Option.map_none]

theorem Emits.append (ha : Emits a P Q) (hb : Emits b Q R) : Emits (a ++ b) P R := by
  intro w t hout hP
  obtain ⟨s, w', hs, hQ, hframe⟩ := ha w t hout hP
  obtain ⟨s', w'', hs', hR, hframe'⟩ := hb w' (t ++ s) (hframe.output ▸ hout) hQ
  exact ⟨s ++ s', w'', append_eq_some hs hs', by rwa [← List.append_assoc],
    hframe.trans hframe'⟩

theorem Emits.forEach {α : Type} {f : α → Block} {l : List α} (h : ∀ x ∈ l, Emits (f x) P P) :
    Emits (Block.forEach f l) P P := by
  induction l with
  | nil => exact emits_empty
  | cons x l ih =>
    exact (h x (by simp)).append (ih fun y hy => h y (List.mem_cons_of_mem x hy))

theorem emits_pushNesting (c : Container) :
    Emits (pushNesting c) (BeforeValue cs) (BetweenItems (c :: cs)) := by
  intro w t hout hP
  refine ⟨[c.opening], { w with nesting := c :: w.nesting, currentNestingHadItem := false },
    ?_, ?_, ⟨rfl, rfl, rfl, rfl⟩⟩
  · rw [pushNesting, if_neg (by simp [Option.isNone_iff_eq_none, Option.isSome_iff_ne_none.mp hout])]
  · exact ⟨congrArg (c :: ·) hP.1, hP.2.2.opening c⟩

theorem separator_item (had : Bool) (nesting : List Container) :
    Separator had ((if had then ascii ",\n" else ascii "\n") ++ indentation nesting) := by
  have h := separator_next had (space_indentation nesting)
  cases had
  · exact h
  · exact h

theorem emits_objectItem {key : Bytes} (hkey : IsString (serializeString key)) :
    Emits (prepareObjectItemStart key) (BetweenItems (.object :: cs))
      (BeforeValue (.object :: cs)) := by
  intro w t _ hP
  refine ⟨_, _, rfl, ⟨hP.1, .inr rfl, ?_⟩, ⟨rfl, rfl, rfl, rfl⟩⟩
  have hstart : Start .object w.currentNestingHadItem _ :=
    ⟨_, _, separator_item w.currentNestingHadItem w.nesting, label_key hkey, rfl⟩
  rw [List.append_assoc _ (serializeString key)]
  exact hP.2.start hstart

theorem emits_objectItemStart {key : Bytes} (hkey : plainKey key) :
    Emits (prepareObjectItemStart key) (BetweenItems (.object :: cs))
      (BeforeValue (.object :: cs)) :=
  emits_objectItem (isString_serializeString hkey)

theorem emits_arrayItemStart :
    Emits prepareArrayItemStart (BetweenItems (.array :: cs)) (BeforeValue (.array :: cs)) := by
  intro w t _ hP
  refine ⟨_, _, rfl, ⟨hP.1, .inr rfl, ?_⟩, ⟨rfl, rfl, rfl, rfl⟩⟩
  have hstart : Start .array w.currentNestingHadItem _ :=
    ⟨_, [], separator_item w.currentNestingHadItem w.nesting, rfl, (List.append_nil _).symm⟩
  exact hP.2.start hstart

theorem between_of_value {v : Bytes} {w : JsonWriter} {t : Bytes} (h : BeforeValue cs w t)
    (hv : Value v) : BetweenItems cs w (t ++ v) := by
  refine ⟨h.1, ?_⟩
  have hbetween := h.2.2.value hv
  cases h.2.1 with
  | inl hroot =>
    subst hroot
    exact hbetween
  | inr hhad => exact hhad ▸ hbetween

theorem emits_text {v : Bytes} (hv : Value v) :
    Emits (Block.text v) (BeforeValue cs) (BetweenItems cs) := fun w _ _ hP =>
  ⟨v, w, rfl, between_of_value hP hv, Frame.refl w⟩

theorem emits_serialize {tree : Tree} (h : tree.Leaves) (hplain : tree.plainKeys) :
    Emits (serialize tree) (BeforeValue cs) (BetweenItems cs) := fun w _ _ hP =>
  ⟨_, w, rfl, between_of_value hP (h.value hplain w.nesting), Frame.refl w⟩

theorem emits_popNesting : Emits popNesting (BetweenItems (c :: cs)) (BetweenItems cs) := by
  intro w t hout hP
  refine ⟨ascii "\n" ++ indentation cs ++ [c.closing],
    { w with nesting := cs, currentNestingHadItem := true }, ?_, ?_, ⟨rfl, rfl, rfl, rfl⟩⟩
  · rw [popNesting, if_neg (by simp [Option.isNone_iff_eq_none, Option.isSome_iff_ne_none.mp hout]),
      hP.1]
  · exact ⟨rfl, hP.2.close (space_indentation cs)⟩

end JsonWriter

end Export

end MessengerClient
