import MessengerClient.AutoDownload

/-!
# MessengerClient.AutoDownload.Load

Which byte strings are taken as settings, and where the limits come from.

`readLimits_some` gives every limit as the number at its place, zero where the bytes are
missing; `isSome_load_of_short` says that nothing after the limits refuses an input that
ends before them.  The round trip is composed of the parts that are written and read back.
-/

namespace MessengerClient

namespace Data

namespace AutoDownload

attribute [local instance] peerOrder

/-! ## Numbers at their places -/

/-- The number `i` of those that follow the version, where all of its bytes are there. -/
def field (rest : Bytes) (i : Nat) : Option Int32 :=
  if 4 * (i + 1) ≤ rest.length then
    some (UInt32.ofNat (ofBeBytes ((rest.drop (4 * i)).take 4))).toInt32
  else
    none

/-- The number that the stream gives. -/
def valueAt (rest : Bytes) (i : Nat) : Int32 := (field rest i).getD 0

theorem field_drop (rest : Bytes) (i : Nat) : field (rest.drop 4) i = field rest (i + 1) := by
  unfold field
  rw [List.length_drop, List.drop_drop, Nat.mul_succ 4 i, Nat.add_comm 4]
  by_cases h : 4 * (i + 1 + 1) ≤ rest.length
  · rw [if_pos h, if_pos (by omega)]
  · rw [if_neg h, if_neg (by omega)]

theorem valueAt_drop (rest : Bytes) (i : Nat) : valueAt (rest.drop 4) i = valueAt rest (i + 1) := by
  rw [valueAt, valueAt, field_drop]

theorem int32_eq (rest : Bytes) (ok : Bool) :
    Get.int32 { rest := rest, ok := ok } =
      (valueAt rest 0, { rest := rest.drop 4, ok := ok && decide (4 ≤ rest.length) }) := by
  have hblock : Get.int32 { rest := rest, ok := ok } =
      ((UInt32.ofNat (((Get.block 4 { rest := rest, ok := ok }).1).elim 0
        fun b => ofBeBytes b.1)).toInt32, (Get.block 4 { rest := rest, ok := ok }).2) := rfl
  rw [hblock, Get.block, valueAt, field]
  by_cases h : 4 ≤ rest.length
  · rw [dif_pos h, if_pos (by omega), decide_eq_true h, Bool.and_true]
    rfl
  · rw [dif_neg h, if_neg (by omega), decide_eq_false h, Bool.and_false,
      List.drop_eq_nil_of_le (by omega)]
    rfl

/-- Zero is a limit, so a number that is cut off is not refused. -/
theorem validLimit_valueAt {rest : Bytes} {i : Nat}
    (h : ∀ value, field rest i = some value → ValidLimit value) : ValidLimit (valueAt rest i) := by
  unfold valueAt
  cases hfield : field rest i with
  | none => decide
  | some value => exact h value hfield

namespace Full

/-! ## The limits -/

theorem setSingle_data (full : Full) (source : Source) (type : Type_) (single : Single) :
    (full.setSingle source type single).data =
      Function.update full.data source (Function.update (full.data source) type single) := rfl

theorem setSingle_same (full : Full) (source : Source) (type : Type_) (single : Single) :
    (full.setSingle source type single).data source type = single := by
  rw [setSingle_data, Function.update_self, Function.update_self]

theorem setSingle_other (full : Full) {slot slot' : Source × Type_} (single : Single)
    (hne : slot' ≠ slot) :
    (full.setSingle slot.1 slot.2 single).data slot'.1 slot'.2 = full.data slot'.1 slot'.2 := by
  rw [setSingle_data]
  by_cases hsource : slot'.1 = slot.1
  · have htype : slot'.2 ≠ slot.2 := fun htype => hne (Prod.ext hsource htype)
    rw [hsource, Function.update_self, Function.update_of_ne htype]
  · rw [Function.update_of_ne hsource]

/-- **The limits that were read** are the numbers at their places. -/
theorem readLimits_some {slots : List (Source × Type_)} (hnodup : slots.Nodup) {temp full : Full}
    {rest : Bytes} {ok : Bool}
    (h : (readLimits slots temp { rest := rest, ok := ok }).1 = some full) :
    full.peerOverrides = temp.peerOverrides ∧
      (∀ slot ∉ slots, full.data slot.1 slot.2 = temp.data slot.1 slot.2) ∧
      ∀ i slot, slots[i]? = some slot →
        (full.data slot.1 slot.2).limit = valueAt rest i ∧ ValidLimit (valueAt rest i) := by
  induction slots generalizing temp rest ok with
  | nil =>
      cases h
      exact ⟨rfl, fun _ _ => rfl, by simp⟩
  | cons slot slots ih =>
      obtain ⟨hslot, hnodup⟩ := List.nodup_cons.mp hnodup
      rw [readLimits, Get.bind_apply, int32_eq] at h
      by_cases hvalid : ValidLimit (valueAt rest 0)
      · rw [Single.setFromSerialized, dif_pos hvalid] at h
        obtain ⟨hoverrides, hother, hplaces⟩ := ih hnodup h
        refine ⟨hoverrides, fun slot' hslot' => ?_, fun i slot' hi => ?_⟩
        · obtain ⟨hne, hnot⟩ := not_or.mp (List.mem_cons.not.mp hslot')
          rw [hother slot' hnot, setSingle_other temp _ hne]
        · cases i with
          | zero =>
              cases hi
              rw [hother slot hslot, setSingle_same]
              exact ⟨rfl, hvalid⟩
          | succ i =>
              rw [List.getElem?_cons_succ] at hi
              rw [← valueAt_drop]
              exact hplaces i slot' hi
      · rw [Single.setFromSerialized, dif_neg hvalid] at h
        cases h

/-- Nothing but a number that is no limit is refused. -/
theorem exists_readLimits {slots : List (Source × Type_)} {temp : Full} {rest : Bytes} {ok : Bool}
    (h : ∀ i < slots.length, ValidLimit (valueAt rest i)) :
    ∃ full, readLimits slots temp { rest := rest, ok := ok } = (some full,
      { rest := rest.drop (4 * slots.length),
        ok := ok && decide (4 * slots.length ≤ rest.length) }) := by
  induction slots generalizing temp rest ok with
  | nil => exact ⟨temp, by simp [readLimits, Get.pure_apply]⟩
  | cons slot slots ih =>
      have hnext : ∀ i < slots.length, ValidLimit (valueAt (rest.drop 4) i) := by
        intro i hi
        rw [valueAt_drop]
        exact h (i + 1) (Nat.succ_lt_succ hi)
      have hvalid := h 0 (Nat.succ_pos _)
      rw [readLimits, Get.bind_apply, int32_eq, Single.setFromSerialized, dif_pos hvalid]
      obtain ⟨full, hfull⟩ := ih hnext
      refine ⟨full, hfull.trans ?_⟩
      rw [List.drop_drop, List.length_drop, List.length_cons, Nat.mul_succ, Nat.add_comm 4,
        Bool.and_assoc, ← Bool.decide_and]
      congr 4
      rw [eq_iff_iff]
      omega

/-! ## The first version -/

theorem raised_eq (full : Full) :
    full.raised =
      (sources.flatMap fun source => kAutoPlayTypes.map (source, ·)).foldl raiseSlot full := rfl

/-- The limit of a slot depends on what is set there. -/
theorem bytesLimit_val (full : Full) (source : Source) (type : Type_) :
    (full.bytesLimit source type).1 =
      if (full.data source type).limit = -1 then
        (defaults.data source type).limit.toUInt32.toNat
      else (full.data source type).limit.toUInt32.toNat := by
  unfold bytesLimit setOrDefault Single.hasValue
  by_cases h : (full.data source type).limit = -1
  · rw [if_pos h]
    simp only [h, bne_self_eq_false, Bool.false_eq_true, ↓reduceDIte]
    rfl
  · rw [if_neg h]
    simp only [bne_iff_ne, ne_eq, h, not_false_eq_true, ↓reduceDIte]
    rfl

theorem bytesLimit_congr {full full' : Full} {source : Source} {type : Type_}
    (h : full.data source type = full'.data source type) :
    full.bytesLimit source type = full'.bytesLimit source type := by
  apply Subtype.ext
  rw [bytesLimit_val, bytesLimit_val, h]

theorem foldl_raiseSlot {slots : List (Source × Type_)} (hnodup : slots.Nodup) (full : Full)
    (slot : Source × Type_) :
    (slots.foldl raiseSlot full).data slot.1 slot.2 =
      if slot ∈ slots then
        .ofLimit (max (full.bytesLimit slot.1 slot.2) kDefaultAutoPlaySize)
      else full.data slot.1 slot.2 := by
  induction slots generalizing full with
  | nil => rfl
  | cons first slots ih =>
      obtain ⟨hfirst, hnodup⟩ := List.nodup_cons.mp hnodup
      rw [List.foldl_cons, ih hnodup]
      by_cases heq : slot = first
      · subst heq
        rw [if_neg hfirst, if_pos List.mem_cons_self]
        exact setSingle_same ..
      · have hsame : (raiseSlot full first).data slot.1 slot.2 = full.data slot.1 slot.2 :=
          setSingle_other full _ heq
        rw [hsame, bytesLimit_congr hsame]
        simp only [List.mem_cons, heq, false_or]

/-- What a limit is made of a number that was read. -/
def Loaded (version : UInt8) (type : Type_) (value limit : Int32) : Prop :=
  if version = kVersion1 ∧ type ∈ kAutoPlayTypes then
    limit.toUInt32.toNat =
      max (if value = -1 then 0 else value.toUInt32.toNat) kDefaultAutoPlaySize.1
  else limit = value

theorem raised_loaded (full : Full) (slot : Source × Type_) :
    Loaded kVersion1 slot.2 (full.data slot.1 slot.2).limit
      (full.raised.data slot.1 slot.2).limit := by
  rw [raised_eq, foldl_raiseSlot (by decide), Loaded]
  have hmem : slot ∈ (sources.flatMap fun source => kAutoPlayTypes.map (source, ·)) ↔
      slot.2 ∈ kAutoPlayTypes := by
    obtain ⟨source, type⟩ := slot
    cases source <;> cases type <;> decide
  by_cases h : slot.2 ∈ kAutoPlayTypes
  · rw [if_pos ⟨rfl, h⟩, if_pos (hmem.mpr h)]
    have hdefault : ∀ slot : Source × Type_, slot.2 ∈ kAutoPlayTypes →
        (defaults.data slot.1 slot.2).limit.toUInt32.toNat = kDefaultAutoPlaySize.1 := by
      rintro ⟨source, type⟩
      cases source <;> cases type <;> decide
    have hmax : (Single.ofLimit (max (full.bytesLimit slot.1 slot.2)
        kDefaultAutoPlaySize)).limit.toUInt32.toNat =
        max (full.bytesLimit slot.1 slot.2).1 kDefaultAutoPlaySize.1 :=
      (Single.toNat_ofNat_limit _).trans
        ((Subtype.mono_coe _).map_max)
    rw [hmax, bytesLimit_val]
    by_cases hnone : (full.data slot.1 slot.2).limit = -1
    · rw [if_pos hnone, if_pos hnone, hdefault slot h, max_self, Nat.zero_max]
    · rw [if_neg hnone, if_neg hnone]
  · rw [if_neg fun hand => h hand.2, if_neg fun hslot => h (hmem.mp hslot)]

/-! ## All of an input -/

def Known (version : UInt8) : Prop :=
  version = kVersion1 ∨ version = kVersion2 ∨ version = kVersion

instance (version : UInt8) : Decidable (Known version) := inferInstanceAs (Decidable (_ ∨ _))

/-- What follows the limits that were read. -/
def finish (version : UInt8) (temp : Full) : Get (Option Full) := do
  let temp := if version = kVersion1 then temp.raised else temp
  let atEnd ← Get.atEnd
  if version ≥ kVersion && !atEnd then readOverrides temp else return some temp

theorem load_run (version : UInt8) (rest : Bytes) :
    load.run (version :: rest) =
      if Known version then
        match readLimits slots .new { rest := rest } with
        | (none, _) => none
        | (some temp, s) => (finish version temp s).1
      else none := by
  have hversion : (Get.uint8 { rest := version :: rest } : UInt8 × DataStream) =
      (version, { rest := rest }) := by
    have hput : putUInt8 version = [version] := by
      simp [putUInt8, beBytes]
    have hreads := Reads.uint8 version rest
    rwa [hput] at hreads
  have hknown : (version ≠ kVersion ∧ version ≠ kVersion2 ∧ version ≠ kVersion1) ↔
      ¬ Known version := by
    unfold Known
    tauto
  rw [Get.run, load, Get.bind_apply, hversion, Get.bind_apply]
  simp only [Get.status, Bool.not_true, Bool.false_eq_true, ↓reduceIte, hknown]
  by_cases h : Known version
  · rw [if_neg (not_not.mpr h), if_pos h, Get.bind_apply]
    cases hlimits : readLimits slots .new { rest := rest } with
    | mk result s =>
      cases result with
      | none => rfl
      | some temp => rfl
  · rw [if_pos h, if_neg h]
    rfl

theorem setPeerOverride_data (full : Full) (peerId : PeerId) (value : Override) :
    (full.setPeerOverride peerId value).data = full.data := by
  unfold setPeerOverride
  split <;> rfl

theorem applyOverride_data (temp : Full) (read : PeerId × UInt8) :
    (applyOverride temp read).data = temp.data := by
  unfold applyOverride
  dsimp only
  split
  · exact setPeerOverride_data ..
  · rfl

theorem readOverrides_data {temp full : Full} {s : DataStream}
    (h : (readOverrides temp s).1 = some full) : full.data = temp.data := by
  rw [readOverrides, Get.bind_apply, Get.bind_apply] at h
  generalize Get.int32 s = count at h
  generalize Get.status count.2 = ok at h
  split at h
  · cases h
  · rw [Get.bind_apply] at h
    have hkept := Get.repeated_invariant (m := readOverride) (f := applyOverride)
      (fun full => full.data = temp.data)
      (fun full read hfull => (applyOverride_data full read).trans hfull)
      count.1.toInt.toNat rfl ok.2
    generalize Get.repeated readOverride applyOverride count.1.toInt.toNat temp ok.2 = result
      at h hkept
    obtain ⟨⟨result, done⟩, s'⟩ := result
    cases done with
    | false => cases h
    | true => exact Option.some.inj h ▸ hkept

theorem finish_loaded {version : UInt8} {temp full : Full} {s : DataStream}
    (h : (finish version temp s).1 = some full) (slot : Source × Type_) :
    Loaded version slot.2 (temp.data slot.1 slot.2).limit (full.data slot.1 slot.2).limit := by
  have hdata : full.data = (if version = kVersion1 then temp.raised else temp).data := by
    rw [finish, Get.bind_apply] at h
    split at h
    · exact readOverrides_data h
    · exact congrArg Full.data (Option.some.inj h).symm
  rw [hdata]
  by_cases hversion : version = kVersion1
  · rw [if_pos hversion, hversion]
    exact raised_loaded temp slot
  · rw [if_neg hversion, Loaded, if_neg fun hand => hversion hand.1]

theorem isSome_finish_of_nil (version : UInt8) (temp : Full) {s : DataStream}
    (hs : s.rest = []) : (finish version temp s).1.isSome = true := by
  rw [finish, Get.bind_apply]
  have hend : (Get.atEnd s).1 = true := by rw [Get.atEnd, hs]; rfl
  rw [hend, Bool.not_true, Bool.and_false, if_neg Bool.false_ne_true]
  rfl

theorem load_run_of_limits {version : UInt8} {rest : Bytes} {temp : Full} {s : DataStream}
    (hknown : Known version) (h : readLimits slots .new { rest := rest } = (some temp, s)) :
    load.run (version :: rest) = (finish version temp s).1 := by
  rw [load_run, if_pos hknown, h]

/-! ## What is taken -/

/-- Every limit is made of the number at its place in the input. -/
def Taken (bytes : Bytes) (full : Full) : Prop :=
  ∀ i slot, slots[i]? = some slot → ∃ value, field bytes.tail i = some value ∧
    Loaded (bytes.headD 0) slot.2 value (full.data slot.1 slot.2).limit

/-- The input ends before the last limit, and is not refused for what is there. -/
def Truncated (bytes : Bytes) : Prop :=
  bytes.length < 1 + 4 * slots.length ∧ (∃ version, bytes.head? = some version ∧ Known version) ∧
    ∀ i value, field bytes.tail i = some value → ValidLimit value

theorem not_taken_of_short {bytes : Bytes} (full : Full)
    (h : bytes.length < 1 + 4 * slots.length) : ¬ Taken bytes full := by
  intro htaken
  obtain ⟨value, hfield, -⟩ := htaken 20 (.Channel, .File) rfl
  have hslots : slots.length = 21 := rfl
  rw [field, if_neg] at hfield
  · cases hfield
  · rw [List.length_tail]
    omega

/-- Settings that were taken have the limits of the input, if it goes on to the last one. -/
theorem taken_of_load {version : UInt8} {rest : Bytes} {full : Full}
    (h : load.run (version :: rest) = some full) :
    Known version ∧ (∀ i < slots.length, ValidLimit (valueAt rest i)) ∧
      (4 * slots.length ≤ rest.length → Taken (version :: rest) full) := by
  rw [load_run] at h
  split at h
  · next hknown =>
    have hsome (temp : Full) (h : (readLimits slots new { rest := rest }).1 = some temp) :=
      readLimits_some (by decide) h
    generalize readLimits slots new { rest := rest } = result at h hsome
    obtain ⟨_ | temp, s⟩ := result
    · cases h
    · obtain ⟨-, -, hplaces⟩ := hsome temp rfl
      refine ⟨hknown, fun i hi => (hplaces i _ (List.getElem?_eq_getElem hi)).2, ?_⟩
      intro hlength i slot hi
      have hilt : i < slots.length := (List.getElem?_eq_some_iff.mp hi).1
      have hfield : field rest i = some (valueAt rest i) := by
        rw [valueAt, field, if_pos (by omega)]
        rfl
      refine ⟨valueAt rest i, hfield, ?_⟩
      have hloaded := finish_loaded h slot
      rwa [(hplaces i slot hi).1] at hloaded
  · cases h

/-- **A truncated input is taken.** -/
theorem isSome_load_of_truncated {bytes : Bytes} (h : Truncated bytes) :
    (load.run bytes).isSome = true := by
  obtain ⟨hlength, ⟨version, hhead, hknown⟩, hvalid⟩ := h
  obtain ⟨rest, rfl⟩ : ∃ rest, bytes = version :: rest := List.head?_eq_some_iff.mp hhead
  rw [load_run, if_pos hknown]
  have hlimits : ∃ temp, readLimits slots new { rest := rest } = (some temp, _) :=
    exists_readLimits fun i _ => validLimit_valueAt (hvalid i)
  obtain ⟨temp, htemp⟩ := hlimits
  rw [htemp]
  refine isSome_finish_of_nil version temp (List.drop_eq_nil_of_le ?_)
  rw [List.length_cons] at hlength
  omega

/-! ## The round trip -/

/-- Every peer id can be written, and the exceptions can be counted. -/
def Writable (full : Full) : Prop :=
  (∀ e ∈ full.peerOverrides.entries, e.1.value &&& PeerId.kReserved = 0) ∧
    full.peerOverrides.size < 2 ^ 31

theorem reads_limits (full : Full) (slots : List (Source × Type_)) (temp : Full) :
    ∃ result, Reads (readLimits slots temp)
        (slots.flatMap fun slot => putInt32 (full.data slot.1 slot.2).serialize) (some result) ∧
      result.peerOverrides = temp.peerOverrides ∧
      ∀ slot, result.data slot.1 slot.2 =
        if slot ∈ slots then full.data slot.1 slot.2 else temp.data slot.1 slot.2 := by
  induction slots generalizing temp with
  | nil => exact ⟨temp, Reads.pure _, rfl, fun _ => rfl⟩
  | cons first slots ih =>
      have hsingle : Single.setFromSerialized (full.data first.1 first.2).serialize =
          some (full.data first.1 first.2) := dif_pos (full.data first.1 first.2).valid
      obtain ⟨result, hreads, hoverrides, hdata⟩ :=
        ih (temp.setSingle first.1 first.2 (full.data first.1 first.2))
      refine ⟨result, ?_, hoverrides, fun slot => ?_⟩
      · rw [List.flatMap_cons, readLimits]
        refine (Reads.int32 _).bind ?_
        rw [hsingle]
        exact hreads
      · rw [hdata]
        by_cases heq : slot = first
        · subst heq
          rw [setSingle_same, ite_self, if_pos List.mem_cons_self]
        · rw [setSingle_other temp _ heq]
          simp only [List.mem_cons, heq, false_or]

/-- What is written for a peer. -/
def overrideBytes (read : PeerId × UInt8) : Bytes :=
  putUInt64 (read.1.value ||| PeerId.kReserved) ++ putUInt8 read.2

def coded (entry : PeerId × Override) : PeerId × UInt8 := (entry.1, entry.2.code)

theorem mapM_putOverride {es : List (PeerId × Override)}
    (h : ∀ e ∈ es, e.1.value &&& PeerId.kReserved = 0) :
    es.mapM putOverride = some (es.map fun e => overrideBytes (coded e)) := by
  induction es with
  | nil => rfl
  | cons e es ih =>
      have hput : putOverride e = some (overrideBytes (coded e)) := by
        rw [putOverride, serializePeerId, if_pos (h e List.mem_cons_self)]
        rfl
      rw [List.mapM_cons, hput, ih fun e' he' => h e' (List.mem_cons_of_mem e he')]
      rfl

theorem reserved_of_mapM {es : List (PeerId × Override)} {overrides : List Bytes}
    (h : es.mapM putOverride = some overrides) :
    ∀ e ∈ es, e.1.value &&& PeerId.kReserved = 0 := by
  induction es generalizing overrides with
  | nil => simp
  | cons e es ih =>
      rw [List.mapM_cons] at h
      obtain ⟨bytes, hput, h⟩ := Option.bind_eq_some_iff.mp h
      obtain ⟨rest, hrest, -⟩ := Option.bind_eq_some_iff.mp h
      refine List.forall_mem_cons.mpr ⟨?_, ih hrest⟩
      obtain ⟨id, hid, -⟩ := Option.map_eq_some_iff.mp hput
      exact (Option.ite_none_right_eq_some.mp hid).1

theorem reads_override {read : PeerId × UInt8} (h : read.1.value &&& PeerId.kReserved = 0) :
    Reads readOverride (overrideBytes read) (some read) := by
  obtain ⟨serialized, hserialize, hdeserialize⟩ := deserializePeerId_serializePeerId h
  rw [serializePeerId, if_pos h] at hserialize
  cases hserialize
  refine Reads.checked ((Reads.uint64 _).bind ?_)
  rw [hdeserialize]
  exact (Reads.uint8 read.2).ret fun raw => some (read.1, raw)

theorem ofCode_code (value : Override) : Override.ofCode value.code = value := by
  cases value <;> rfl

theorem foldl_applyOverride {es : List (PeerId × Override)} (h : ∀ e ∈ es, e.2 ≠ .Default)
    (temp : Full) :
    ((es.map coded).foldl applyOverride temp).peerOverrides =
        es.foldl (fun m e => m.insert e.1 e.2) temp.peerOverrides ∧
      ((es.map coded).foldl applyOverride temp).data = temp.data := by
  induction es generalizing temp with
  | nil => exact ⟨rfl, rfl⟩
  | cons e es ih =>
      have hvalue : Override.ofCode (coded e).2 = e.2 := ofCode_code e.2
      have hne := h e List.mem_cons_self
      have hoverrides : (applyOverride temp (coded e)).peerOverrides =
          temp.peerOverrides.insert e.1 e.2 := by
        rw [applyOverride, hvalue, if_pos hne, setPeerOverride, dif_neg hne]
        rfl
      obtain ⟨htail, hdata⟩ := ih (fun e' he' => h e' (List.mem_cons_of_mem e he'))
        (applyOverride temp (coded e))
      rw [List.map_cons, List.foldl_cons, List.foldl_cons, htail, hdata, hoverrides]
      exact ⟨rfl, applyOverride_data ..⟩

theorem toNat_count {n : Nat} (h : n < 2 ^ 31) :
    ¬ Int32.ofNat n < 0 ∧ (Int32.ofNat n).toInt.toNat = n := by
  have hint : (Int32.ofNat n).toInt = n := Int32.toInt_ofNat_of_lt h
  rw [Int32.lt_iff_toInt_lt, hint]
  exact ⟨by simp, Int.toNat_natCast n⟩

/-- The exceptions are read back into settings without any. -/
theorem reads_overrides {full temp : Full} (h : Writable full) (htemp : temp.peerOverrides = ∅)
    (hdata : temp.data = full.data) :
    Reads (readOverrides temp) (putInt32 (Int32.ofNat full.peerOverrides.size) ++
      (full.peerOverrides.entries.map fun e => overrideBytes (coded e)).flatten) (some full) := by
  obtain ⟨hreserved, hsize⟩ := h
  obtain ⟨hcount, htoNat⟩ := toNat_count hsize
  obtain ⟨hfold, hkept⟩ := foldl_applyOverride full.stored temp
  have hfull : (full.peerOverrides.entries.map coded).foldl applyOverride temp = full := by
    refine Full.ext (hkept.trans hdata) ?_
    rw [hfold, htemp, FlatMap.foldl_insert_eq_emplaceAll full.peerOverrides.nodup_keys
      (fun _ _ => FlatMap.find?_empty _), FlatMap.empty_emplaceAll_entries]
  have hread : ∀ read ∈ full.peerOverrides.entries.map coded,
      Reads readOverride (overrideBytes read) (some read) := by
    intro read hread
    obtain ⟨e, he, rfl⟩ := List.mem_map.mp hread
    exact reads_override (hreserved e he)
  have hrepeated := Reads.repeated applyOverride _ temp hread
  rw [hfull, List.length_map, List.flatMap_map] at hrepeated
  refine (Reads.int32 _).bind (Reads.bind (b := []) Reads.status ?_)
  rw [Bool.not_true, Bool.false_or, if_neg (by rw [decide_eq_true_eq]; exact hcount), htoNat]
  exact hrepeated.ret fun result => if result.2 then some result.1 else none

theorem size_applyOverride (temp : Full) (read : PeerId × UInt8) :
    (applyOverride temp read).peerOverrides.size ≤ temp.peerOverrides.size + 1 := by
  unfold applyOverride
  by_cases h : Override.ofCode read.2 = .Default
  · rw [if_neg (not_not.mpr h)]
    exact Nat.le_succ _
  · rw [if_pos h, setPeerOverride, dif_neg h]
    exact FlatMap.size_insert_le _ _ _

/-- The part of the exceptions of too many is refused, or not all of them are read. -/
theorem readOverrides_ne_of_large {full temp : Full} (h : ¬ full.peerOverrides.size < 2 ^ 31)
    (htemp : temp.peerOverrides = ∅) (rest : Bytes) :
    (readOverrides temp
      { rest := putInt32 (Int32.ofNat full.peerOverrides.size) ++ rest }).1 ≠ some full := by
  intro hsome
  rw [readOverrides, (Reads.int32 _).andThen, Get.bind_apply] at hsome
  generalize Int32.ofNat full.peerOverrides.size = count at hsome
  split at hsome
  · cases hsome
  · rw [Get.bind_apply] at hsome
    have hsize := Get.repeated_measure (m := readOverride) (f := applyOverride)
      (fun full => full.peerOverrides.size) size_applyOverride count.toInt.toNat temp
      (Get.status { rest := rest }).2
    generalize Get.repeated readOverride applyOverride count.toInt.toNat temp
      (Get.status { rest := rest }).2 = result at hsome hsize
    obtain ⟨⟨result, done⟩, s⟩ := result
    cases done with
    | false => cases hsome
    | true =>
        cases hsome
        rw [htemp, FlatMap.size_empty, Nat.zero_add] at hsize
        have hcount := count.toInt_lt
        dsimp only at hsize
        omega

theorem finish_of_ne_nil {temp : Full} {rest : Bytes} (h : rest ≠ []) :
    (finish kVersion temp { rest := rest }).1 = (readOverrides temp { rest := rest }).1 := by
  have hend : Get.atEnd { rest := rest } = (false, { rest := rest }) := by
    rw [Get.atEnd, List.isEmpty_eq_false_iff.mpr h]
  rw [finish, Get.bind_apply, hend, if_neg (show kVersion ≠ kVersion1 by decide),
    if_pos (show (decide (kVersion ≥ kVersion) && !false) = true by decide)]

/-- What is written ends with the exceptions, which are read into settings with the same
limits. -/
theorem load_serialize {full : Full} {bytes : Bytes} (h : full.serialize = some bytes) :
    ∃ temp overrides, temp.peerOverrides = ∅ ∧ temp.data = full.data ∧
      full.peerOverrides.entries.mapM putOverride = some overrides ∧
      load.run bytes = (readOverrides temp
        { rest := putInt32 (Int32.ofNat full.peerOverrides.size) ++ overrides.flatten }).1 := by
  obtain ⟨overrides, hoverrides, rfl⟩ := Option.map_eq_some_iff.mp h
  obtain ⟨temp, hreads, hempty, hdata⟩ := reads_limits full slots .new
  have hall : temp.data = full.data := by
    funext source type
    have hmem : (source, type) ∈ slots := by cases source <;> cases type <;> decide
    exact (hdata (source, type)).trans (if_pos hmem)
  refine ⟨temp, overrides, hempty, hall, hoverrides, ?_⟩
  have hput : putUInt8 kVersion = [kVersion] := by decide
  have hlimits := hreads
    (putInt32 (Int32.ofNat full.peerOverrides.size) ++ overrides.flatten)
  rw [hput, List.append_assoc, List.append_assoc, List.singleton_append,
    load_run_of_limits (Or.inr (Or.inr rfl)) hlimits]
  refine finish_of_ne_nil fun hnil => ?_
  have hlength := congrArg List.length hnil
  rw [List.length_append, length_putInt32] at hlength
  exact absurd hlength (by simp)

/-- **The settings are written and read back** unless a peer id cannot be written, or the
exceptions cannot be counted. -/
theorem load_serialize_iff (full : Full) :
    (∃ bytes, full.serialize = some bytes ∧ load.run bytes = some full) ↔ Writable full := by
  constructor
  · rintro ⟨bytes, hbytes, hload⟩
    obtain ⟨temp, overrides, hempty, hdata, hoverrides, hrun⟩ := load_serialize hbytes
    refine ⟨reserved_of_mapM hoverrides, ?_⟩
    by_contra hsize
    exact readOverrides_ne_of_large hsize hempty _ (hrun.symm.trans hload)
  · intro h
    have hmapM := mapM_putOverride h.1
    have hserialize : ∃ bytes, full.serialize = some bytes := by
      rw [serialize, hmapM]
      exact ⟨_, rfl⟩
    obtain ⟨bytes, hbytes⟩ := hserialize
    obtain ⟨temp, overrides, hempty, hdata, hoverrides, hrun⟩ := load_serialize hbytes
    rw [hmapM] at hoverrides
    cases hoverrides
    have hreads := reads_overrides h hempty hdata []
    rw [List.append_nil] at hreads
    exact ⟨bytes, hbytes, by rw [hrun, hreads]⟩

/-- Loading is faithful and atomic for these settings, target and input. -/
structure Faithful (full target : Full) (bytes : Bytes) : Prop where
  roundTrip : ∃ bytes, full.serialize = some bytes ∧ target.setFromSerialized bytes = (full, true)
  unchanged : (target.setFromSerialized bytes).2 = false →
    (target.setFromSerialized bytes).1 = target
  taken : (target.setFromSerialized bytes).2 = true →
    Taken bytes (target.setFromSerialized bytes).1

theorem load_nil : load.run [] = none := by
  have hversion : (Get.uint8 { rest := [] } : UInt8 × DataStream) =
      (0, { rest := [], ok := false }) := rfl
  rw [Get.run, load, Get.bind_apply, hversion]
  rfl

/-- The call takes what is loaded. -/
theorem setFromSerialized_eq (target : Full) (bytes : Bytes) :
    target.setFromSerialized bytes = (((load.run bytes).getD target), (load.run bytes).isSome) := by
  cases bytes with
  | nil => rw [load_nil]; rfl
  | cons version rest =>
      rw [setFromSerialized, List.isEmpty_cons, if_neg Bool.false_ne_true]
      cases load.run (version :: rest) with
      | none => rfl
      | some temp => rfl

theorem truncated_or_taken {bytes : Bytes} {full : Full} (h : load.run bytes = some full) :
    Truncated bytes ∨ Taken bytes full := by
  cases bytes with
  | nil =>
      rw [load_nil] at h
      cases h
  | cons version rest =>
      obtain ⟨hknown, hvalid, htaken⟩ := taken_of_load h
      by_cases hlength : 4 * slots.length ≤ rest.length
      · exact Or.inr (htaken hlength)
      · refine Or.inl ⟨?_, ⟨version, rfl, hknown⟩, fun i value hfield => ?_⟩
        · rw [List.length_cons]
          omega
        · have hi : i < slots.length := by
            rw [List.tail_cons, field] at hfield
            have := (Option.ite_none_right_eq_some.mp hfield).1
            omega
          have hvalue := hvalid i hi
          rwa [valueAt, show field rest i = some value from hfield] at hvalue

/-- **Loading is faithful** for settings that can be written and inputs that are not
truncated: those are taken as if their missing limits were zero. -/
theorem faithful_iff (full target : Full) (bytes : Bytes) :
    Faithful full target bytes ↔ Writable full ∧ ¬ Truncated bytes := by
  have hround : (∃ bytes, full.serialize = some bytes ∧
      target.setFromSerialized bytes = (full, true)) ↔ Writable full := by
    rw [← load_serialize_iff]
    refine exists_congr fun bytes => and_congr_right fun _ => ?_
    rw [setFromSerialized_eq]
    cases load.run bytes with
    | none => simp
    | some temp => simp
  constructor
  · rintro ⟨hroundTrip, -, htaken⟩
    refine ⟨hround.mp hroundTrip, fun htruncated => ?_⟩
    have hsome := isSome_load_of_truncated htruncated
    rw [setFromSerialized_eq] at htaken
    exact not_taken_of_short _ htruncated.1 (htaken hsome)
  · rintro ⟨hwritable, htruncated⟩
    refine ⟨hround.mpr hwritable, ?_, ?_⟩
    · rw [setFromSerialized_eq]
      intro hnone
      rw [Option.isSome_eq_false_iff, Option.isNone_iff_eq_none] at hnone
      exact congrArg (·.getD target) hnone
    · rw [setFromSerialized_eq]
      intro hsome
      obtain ⟨temp, hload⟩ := Option.isSome_iff_exists.mp hsome
      show Taken bytes ((load.run bytes).getD target)
      rw [hload]
      exact (truncated_or_taken hload).resolve_left htruncated

/-- The version alone is taken for settings with all limits zero. -/
theorem not_faithful_version : ¬ Faithful .new .new [3] := by
  intro h
  have htaken := h.taken (by decide)
  exact not_taken_of_short _ (by decide) htaken

end Full

end AutoDownload

end Data

end MessengerClient
