import MessengerClient.ImageLocation.Serialization

/-!
# MessengerClient.ImageLocation.RoundTrip

What is written is read back: for every valid location of any kind, and of the invalid
ones only for the empty storage location without a size.
-/

namespace MessengerClient

/-- A word is put together again from its halves. -/
theorem word_of_halves (x : UInt64) :
    ((x >>> 32).toUInt32.toUInt64 <<< 32) ||| (x &&& 0xFFFFFFFF).toUInt32.toUInt64 = x := by
  have hlt := x.toNat_lt
  have hhigh : ((x >>> 32).toUInt32.toUInt64 <<< 32).toNat = 2 ^ 32 * (x.toNat / 2 ^ 32) := by
    have h : ((x >>> 32).toUInt32.toUInt64 <<< 32).toNat
        = (x.toNat >>> 32 % 2 ^ 32) <<< 32 % 2 ^ 64 := by
      rw [UInt64.toNat_shiftLeft, UInt32.toNat_toUInt64, UInt64.toNat_toUInt32,
        UInt64.toNat_shiftRight]
      rfl
    rw [h, Nat.shiftLeft_eq, Nat.shiftRight_eq_div_pow]
    omega
  have hlow : (x &&& 0xFFFFFFFF).toUInt32.toUInt64.toNat = x.toNat % 2 ^ 32 := by
    have hmask : (0xFFFFFFFF : UInt64).toNat = 2 ^ 32 - 1 := rfl
    rw [UInt32.toNat_toUInt64, UInt64.toNat_toUInt32, UInt64.toNat_and, hmask,
      Nat.and_two_pow_sub_one_eq_mod, Nat.mod_mod]
  apply UInt64.toNat_inj.mp
  rw [UInt64.toNat_or, hhigh, hlow, ← Nat.two_pow_add_eq_or_of_lt (Nat.mod_lt _ (by decide))]
  omega

namespace StorageFileLocation

variable {l : StorageFileLocation}

/-! ## The byte of the type -/

theorem ofByte_toByte (t : StorageFileType) : StorageFileType.ofByte t.toByte = some t := by
  cases t <;> rfl

theorem header_of_inMessage (h : l.inMessagePeerId.value ≠ 0) :
    l.header = (l.type.toByte ||| kModernLocationFlag ||| kInMessageFieldsFlag,
      (l.inMessagePeerId.value >>> 32).toUInt32.toInt32,
      (l.inMessagePeerId.value &&& 0xFFFFFFFF).toUInt32.toInt32) := if_pos h

theorem header_of_not_inMessage (h : ¬ l.inMessagePeerId.value ≠ 0) :
    l.header = (l.type.toByte ||| kModernLocationFlag, l.localId, 0) := if_neg h

/-- The byte is marked as modern, it is not the token, and it names the type. -/
theorem header_flags (l : StorageFileLocation) :
    l.header.1 &&& kModernLocationFlag ≠ 0 ∧ l.header.1 ≠ kNonStorageLocationToken
      ∧ withoutFlags l.header.1 = l.type.toByte := by
  by_cases h : l.inMessagePeerId.value ≠ 0
  · rw [header_of_inMessage h]
    dsimp only
    cases l.type <;> decide
  · rw [header_of_not_inMessage h]
    dsimp only
    cases l.type <;> decide

theorem serializeAsserts_of_wellBuilt (h : l.WellBuilt) : l.serializeAsserts := by
  have hflags := l.header_flags
  have htype : l.type.toByte &&& kModernLocationFlag = 0
      ∧ l.type.toByte &&& kInMessageFieldsFlag = 0 := by
    cases l.type <;> decide
  have hlocal : l.inMessagePeerId.value = 0 ∨ l.localId = 0 := by
    by_cases hpeer : l.inMessagePeerId.value = 0
    · exact Or.inl hpeer
    · exact Or.inr (h.localId (h.inMessagePeerId hpeer))
  simp [serializeAsserts, htype, hlocal, hflags.2.1]

/-! ## The fields -/

/-- The location with the fields that are read as they were written. -/
def plainFields (l : StorageFileLocation) : StorageFileLocation where
  dcId := l.dcId
  sizeLetter := l.sizeLetter
  id := l.id
  accessHash := l.accessHash
  volumeId := l.volumeId
  inMessageId := l.inMessageId.toInt32.toUInt32
  fileReference := l.fileReference

theorem interpret_header (h : l.WellBuilt) :
    interpret { l.plainFields with type := l.type } l.header.1 l.header.2.1 l.header.2.2 = l := by
  have hmodern := l.header_flags.1
  unfold interpret
  rw [if_pos hmodern]
  by_cases hpeer : l.inMessagePeerId.value ≠ 0
  · have hfields : l.header.1 &&& kInMessageFieldsFlag ≠ 0 := by
      rw [header_of_inMessage hpeer]
      dsimp only
      cases l.type <;> decide
    have hlocal := h.localId (h.inMessagePeerId hpeer)
    rw [if_pos hfields, header_of_inMessage hpeer]
    exact StorageFileLocation.ext rfl rfl rfl hlocal.symm rfl rfl rfl
      (PeerId.ext (word_of_halves _)) rfl rfl
  · have hfields : ¬ l.header.1 &&& kInMessageFieldsFlag ≠ 0 := by
      rw [header_of_not_inMessage hpeer]
      dsimp only
      cases l.type <;> decide
    rw [if_neg hfields, header_of_not_inMessage hpeer]
    exact StorageFileLocation.ext rfl rfl rfl rfl rfl rfl rfl
      (PeerId.ext (not_not.mp hpeer).symm) rfl rfl

theorem restore_header (hv : l.valid) (h : l.WellBuilt) :
    restore l.plainFields l.header.1 l.header.2.1 l.header.2.2 = some l := by
  have hthumb : ¬ (l.type = .stickerSetThumb ∧ l.volumeId ≠ 0) := fun ht => ht.2 (h.volumeId ht.1)
  unfold restore
  rw [l.header_flags.2.2, ofByte_toByte]
  simp only [Option.bind_eq_bind, Option.bind_some, interpret_header h, if_neg hthumb, if_pos hv]

theorem reads_readFields (hv : l.valid) (h : l.WellBuilt) :
    Reads (readFields l.dcId l.header.1)
      (putUInt8 l.sizeLetter ++ (putInt32 l.header.2.1 ++ (putUInt64 l.id
        ++ (putUInt64 l.accessHash ++ (putUInt64 l.volumeId ++ (putInt32 l.header.2.2
        ++ (putInt32 l.inMessageId.toInt32 ++ putByteArray l.fileReference)))))))
      (some l) := by
  have hpresent : (decide (l.header.1 &&& kModernLocationFlag ≠ 0)
      || decide (l.header.1 &&& kLegacyInMessagePeerIdFlag ≠ 0)) = true := by
    rw [decide_eq_true l.header_flags.1, Bool.true_or]
  have hmessage : Reads (readMessageFields true)
      (putInt32 l.header.2.2 ++ putInt32 l.inMessageId.toInt32)
      (l.header.2.2, l.inMessageId.toInt32.toUInt32) :=
    (Reads.int32 _).bind ((Reads.int32 _).ret _)
  unfold readFields
  rw [hpresent]
  refine (Reads.uint8 _).bind ?_
  refine (Reads.int32 _).bind ?_
  refine (Reads.uint64 _).bind ?_
  refine (Reads.uint64 _).bind ?_
  refine (Reads.uint64 _).bind ?_
  rw [← List.append_assoc]
  refine hmessage.bind ?_
  rw [← restore_header hv h]
  exact (Reads.byteArray l.fileReference).ret _

/-- **A valid location is read back from its bytes.** -/
theorem reads_read (hv : l.valid) (h : l.WellBuilt) : Reads read l.fieldBytes (some l) := by
  unfold read fieldBytes
  refine (Reads.uint16 _).bind ?_
  refine (Reads.uint8 _).bind ?_
  rw [if_neg l.header_flags.2.1]
  exact (reads_readFields hv h).checked

theorem fieldBytes_ne_nil (l : StorageFileLocation) (rest : Bytes) : l.fieldBytes ++ rest ≠ [] := by
  intro h
  have := congrArg List.length h
  simp [fieldBytes] at this

theorem fromSerialized_fieldBytes (hv : l.valid) (h : l.WellBuilt) (rest : Bytes) :
    fromSerialized (l.fieldBytes ++ rest) = some l := by
  rw [fromSerialized, if_neg (l.fieldBytes_ne_nil rest), (reads_read hv h).run]

theorem length_fieldBytes (hv : l.valid) : l.fieldBytes.length = l.serializeSize := by
  rw [serializeSize, if_pos hv]
  simp [fieldBytes]
  omega

/-! ## Too few bytes -/

theorem needs_readFields (dcId : UInt16) (typeWithFlags : UInt8) :
    Needs (readFields dcId typeWithFlags) 29 := by
  have hmessage : ∀ present, Needs (readMessageFields present) 0 := by
    intro present
    cases present
    · exact Needs.pure _
    · exact (Needs.int32.bind fun _ => Needs.int32.bind fun _ => Needs.pure _).mono (by omega)
  exact (Needs.uint8.bind fun _ => Needs.int32.bind fun _ => Needs.uint64.bind fun _ =>
    Needs.uint64.bind fun _ => Needs.uint64.bind fun _ => (hmessage _).bind fun _ =>
    Needs.byteArray.bind fun _ => Needs.pure _).mono (by omega)

/-- Nothing is read from a few bytes: the fields do not fit. -/
theorem fromSerialized_of_short {bytes : Bytes} (hne : bytes ≠ []) (h : bytes.length < 29) :
    fromSerialized bytes = none := by
  rw [fromSerialized, if_neg hne]
  cases hread : read.run bytes with
  | none => rfl
  | some l =>
      rw [Get.run, read, Get.bind_apply, Get.bind_apply] at hread
      split at hread
      · cases hread
      · have hfields := needs_readFields _ _ _ (Get.of_checked hread).2
        have htype := Needs.uint8 _ hfields.1
        have hdc := Needs.uint16 _ htype.1
        have hbytes : (Get.uint16 { rest := bytes }).2.rest.length + 2 ≤ bytes.length := hdc.2
        omega

/-- The locations that the code builds: the default one, those of TL objects, and their
conversions. -/
inductive Built : StorageFileLocation → Prop where
  | invalid : Built {}
  | tl {dcId : Int32} {self : UserId} {tl : MTPInputFileLocation} {l : StorageFileLocation} :
      ofTL dcId self tl = some l → Built l
  | modern {l : StorageFileLocation} (id accessHash photoId : UInt64) :
      Built l → Built (l.convertToModernPeerPhoto id accessHash photoId)

theorem wellBuilt_default : WellBuilt {} := by
  constructor <;> simp

theorem Built.wellBuilt (h : l.Built) : l.WellBuilt := by
  induction h with
  | invalid => exact wellBuilt_default
  | tl htl => exact (wellBuilt_of_ofTL htl).1
  | modern id accessHash photoId _ ih =>
      unfold convertToModernPeerPhoto
      split
      · exact ih
      · split
        · exact wellBuilt_default
        · constructor <;> simp

theorem serialize_of_valid (hv : l.valid) (h : l.WellBuilt) : l.serialize = some l.fieldBytes := by
  rw [serialize, if_pos hv, if_pos (serializeAsserts_of_wellBuilt h)]

theorem serialize_of_invalid (hv : ¬ l.valid) : l.serialize = some [] := if_neg hv

theorem serializeSize_of_invalid (hv : ¬ l.valid) : l.serializeSize = 0 := if_neg hv

end StorageFileLocation

namespace DownloadLocation

variable {fromUtf8Safe : QByteArray → QString} {l : DownloadLocation}

theorem ofByte_toByte (t : NonStorageLocationType) :
    NonStorageLocationType.ofByte t.toByte = some t := by
  cases t <;> rfl

/-- The byte of the kind, and what stands behind it, are read back. -/
theorem reads_readNonStorage (hUtf8 : ∀ s, fromUtf8Safe s.toUtf8 = s) {bytes : Bytes}
    (h : l.kindBytes = some bytes) : Reads (readNonStorage fromUtf8Safe) bytes (some l) := by
  have hkind (t : NonStorageLocationType) {b : Bytes} {l : DownloadLocation}
      (hb : Reads (readKind fromUtf8Safe (some t)) b (some l)) :
      Reads (readNonStorage fromUtf8Safe) (putUInt8 t.toByte ++ b) (some l) := by
    refine (Reads.uint8 _).bind ?_
    rw [ofByte_toByte]
    exact hb
  cases l with
  | storage file => cases h
  | web url accessHash =>
      cases h
      exact hkind .web ((Reads.byteArray url).bind ((Reads.uint64 accessHash).ret _))
  | geo point =>
      cases h
      exact hkind .geo ((Reads.uint64 _).bind ((Reads.uint64 _).bind ((Reads.uint64 _).bind
        ((Reads.int32 _).bind ((Reads.int32 _).bind ((Reads.int32 _).bind
        ((Reads.int32 _).ret _)))))))
  | plainUrl url =>
      cases h
      have hurl := (Reads.byteArray url.toUtf8).ret fun utf =>
        some (DownloadLocation.plainUrl (fromUtf8Safe utf))
      rw [hUtf8] at hurl
      exact hkind .url hurl
  | audioAlbumThumb documentId =>
      cases h
      exact hkind .audioAlbumThumb ((Reads.uint64 documentId).ret _)
  | memory bytes =>
      cases h
      exact hkind .memory ((Reads.byteArray bytes).ret _)

theorem reads_readHead (dcId : UInt16) (token : UInt8) :
    Reads readHead (putUInt16 dcId ++ putUInt8 token) (dcId, token) :=
  (Reads.uint16 dcId).bind ((Reads.uint8 token).ret _)

theorem fromSerialized_of_head (dcId : UInt16) (token : UInt8) (rest : Bytes) :
    fromSerialized fromUtf8Safe (putUInt16 dcId ++ putUInt8 token ++ rest)
      = if dcId ≠ 0 ∨ token ≠ kNonStorageLocationToken then
          (StorageFileLocation.fromSerialized (putUInt16 dcId ++ putUInt8 token ++ rest)).map .storage
        else
          (readNonStorage fromUtf8Safe).checked.run rest := by
  rw [fromSerialized, reads_readHead dcId token rest]
  rfl

/-- The kinds that are not in a storage are not read as a storage location. -/
theorem not_storage_of_readNonStorage {s : DataStream}
    (h : ((readNonStorage fromUtf8Safe).checked s).1 = some l) : l.isStorage = false := by
  have hread := (Get.of_checked h).1
  rw [readNonStorage, Get.bind_apply] at hread
  cases hkind : NonStorageLocationType.ofByte (Get.uint8 s).1 with
  | none =>
      rw [hkind] at hread
      cases hread
  | some type =>
      rw [hkind] at hread
      cases type <;>
        simp only [readKind, Get.bind_apply, Get.pure_apply, Option.some.injEq] at hread <;>
        rw [← hread] <;> rfl

theorem fromSerialized_of_short {bytes : Bytes} (hne : bytes ≠ []) (h : bytes.length < 29)
    (hl : fromSerialized fromUtf8Safe bytes = some l) : l.isStorage = false := by
  have hdef : fromSerialized fromUtf8Safe bytes
      = if (readHead { rest := bytes }).1.1 ≠ 0
            ∨ (readHead { rest := bytes }).1.2 ≠ kNonStorageLocationToken then
          (StorageFileLocation.fromSerialized bytes).map .storage
        else
          ((readNonStorage fromUtf8Safe).checked (readHead { rest := bytes }).2).1 := rfl
  rw [hdef] at hl
  split at hl
  · rw [StorageFileLocation.fromSerialized_of_short hne h] at hl
    cases hl
  · exact not_storage_of_readNonStorage hl

/-- The storage locations are built by the code. -/
def Built : DownloadLocation → Prop
  | .storage file => file.Built
  | _ => True

/-- A valid location is not empty, fits its size and is read back, whatever follows it. -/
structure Written (fromUtf8Safe : QByteArray → QString) (l : DownloadLocation) (bytes : Bytes) :
    Prop where
  serialize : l.serialize = some bytes
  size : l.serializeSize = some bytes.length
  ne_nil : bytes ≠ []
  read : ∀ rest, fromSerialized fromUtf8Safe (bytes ++ rest) = some l

theorem serialize_storage (file : StorageFileLocation) :
    (storage file).serialize = file.serialize := by
  simp [serialize, isStorage, asStorage]

theorem serializeSize_storage (file : StorageFileLocation) :
    (storage file).serializeSize = some file.serializeSize := by
  simp [serializeSize, isStorage, asStorage]

theorem written_storage {file : StorageFileLocation} (hv : file.valid) (h : file.Built) :
    (storage file).Written fromUtf8Safe file.fieldBytes where
  serialize := by
    rw [serialize_storage, file.serialize_of_valid hv h.wellBuilt]
  size := by
    rw [serializeSize_storage, StorageFileLocation.length_fieldBytes hv]
  ne_nil := by
    simpa using file.fieldBytes_ne_nil []
  read := by
    intro rest
    have hread := StorageFileLocation.fromSerialized_fieldBytes hv h.wellBuilt rest
    have hhead := file.header_flags.2.1
    unfold StorageFileLocation.fieldBytes at hread ⊢
    rw [← List.append_assoc (putUInt16 _), List.append_assoc _ _ rest] at hread ⊢
    rw [fromSerialized_of_head, if_pos (Or.inr hhead), hread]
    rfl

theorem not_storage_of_kindBytes {b : Bytes} (h : l.kindBytes = some b) :
    l.isStorage = false := by
  cases l with
  | storage file => cases h
  | _ => rfl

theorem kindSize_eq {b : Bytes} (h : l.kindBytes = some b) :
    ∃ size, l.kindSize = some size ∧ b.length = 1 + size := by
  cases l with
  | storage file => cases h
  | _ =>
      cases h
      refine ⟨_, rfl, ?_⟩
      simp only [List.length_append, length_putUInt8, length_putUInt64, length_putInt32,
        length_putByteArray]

/-- The kinds that are not in a storage: the token, and what stands behind it. -/
theorem written_kind (hUtf8 : ∀ s, fromUtf8Safe s.toUtf8 = s) (hv : l.valid) {b : Bytes}
    (h : l.kindBytes = some b) :
    l.Written fromUtf8Safe (putUInt16 0 ++ (putUInt8 kNonStorageLocationToken ++ b)) where
  serialize := by
    rw [serialize, hv, not_storage_of_kindBytes h, h]
    rfl
  size := by
    obtain ⟨size, hsize, hlength⟩ := kindSize_eq h
    rw [serializeSize, hv, not_storage_of_kindBytes h, hsize, List.length_append, List.length_append,
      length_putUInt16, length_putUInt8, hlength, ← Nat.add_assoc, ← Nat.add_assoc]
    rfl
  ne_nil := by
    intro hnil
    have := congrArg List.length hnil
    simp at this
  read := by
    intro rest
    rw [← List.append_assoc, List.append_assoc _ _ rest, fromSerialized_of_head]
    rw [if_neg (by simp)]
    exact (reads_readNonStorage hUtf8 h).checked.run rest

theorem written_of_valid (hUtf8 : ∀ s, fromUtf8Safe s.toUtf8 = s) (hv : l.valid) (h : l.Built) :
    ∃ bytes, l.Written fromUtf8Safe bytes := by
  cases l with
  | storage file => exact ⟨_, written_storage hv h⟩
  | _ => exact ⟨_, written_kind hUtf8 hv rfl⟩

/-- The invalid locations that are not in a storage cannot be written. -/
theorem storage_of_serialize {bytes : Bytes} (hv : ¬ l.valid) (h : l.serialize = some bytes) :
    ∃ file, l = .storage file ∧ ¬ file.valid ∧ bytes = [] := by
  cases l with
  | storage file =>
      have hfile : ¬ file.valid := hv
      rw [serialize_storage, StorageFileLocation.serialize_of_invalid hfile] at h
      exact ⟨file, rfl, hfile, (Option.some.inj h).symm⟩
  | _ =>
      rw [serialize, Bool.eq_false_of_not_eq_true hv] at h
      cases h

end DownloadLocation

/-! ## The size behind the location -/

namespace SizedLocation

variable {File : Type} {l : SizedLocation File} {file : Bytes}

theorem append_of_ne_nil (h : file ≠ []) :
    l.append file = file ++ (putInt32 l.width ++ putInt32 l.height) := if_pos (Or.inl h)

/-- The size is read from the end. -/
theorem fromSerialized_append (h : file ≠ []) :
    fromSerialized (some l.file) (l.append file) = some l := by
  have hlength : (l.append file).length = file.length + 8 := by
    rw [append_of_ne_nil h]
    simp
  have hdrop : (l.append file).drop (file.length + 8 - 2 * 4)
      = putInt32 l.width ++ putInt32 l.height := by
    rw [append_of_ne_nil h, Nat.add_sub_cancel, List.drop_left]
  have hsize : Reads (some <$> readSize).checked (putInt32 l.width ++ putInt32 l.height)
      (some (l.width, l.height)) :=
    (((Reads.int32 _).bind ((Reads.int32 _).ret _)).map some).checked
  have hrun := hsize.run []
  rw [List.append_nil] at hrun
  rw [fromSerialized]
  simp only [hlength, hdrop, hrun]
  simp

theorem length_append (h : file ≠ []) : (l.append file).length = l.sizeWith file.length := by
  have hpos : file.length > 0 := List.length_pos_iff.mpr h
  rw [append_of_ne_nil h, sizeWith, if_pos (Or.inl hpos)]
  simp

/-- Without a file only the size is written, if there is any. -/
theorem append_nil (l : SizedLocation File) :
    l.append [] = [] ∨ (l.append []).length = 8 := by
  unfold append
  split
  · exact Or.inr (by simp)
  · exact Or.inl rfl

/-- The file is the one that was read. -/
theorem file_of_fromSerialized {file : Option File} {bytes : Bytes}
    (h : fromSerialized file bytes = some l) : file = some l.file := by
  cases file with
  | none => cases h
  | some file =>
      simp only [fromSerialized, Option.bind_eq_bind, Option.bind_some] at h
      split at h
      · cases h
        rfl
      · split at h
        · obtain ⟨size, _, hsize⟩ := Option.bind_eq_some_iff.mp h
          cases hsize
          rfl
        · cases h

end SizedLocation

/-! ## Image locations -/

namespace ImageLocation

/-- The location is written without a failed `Assert`, fits its size and is read back
with all its fields. -/
def Survives (fromUtf8Safe : QByteArray → QString) (l : ImageLocation) : Prop :=
  ∃ bytes size, l.serialize = some bytes ∧ l.serializeSize = some size ∧ bytes.length ≤ size
    ∧ fromSerialized fromUtf8Safe bytes = some l

variable {fromUtf8Safe : QByteArray → QString} {l : ImageLocation}

/-- A valid location has exactly the bytes that its size says. -/
theorem written_of_valid (hUtf8 : ∀ s, fromUtf8Safe s.toUtf8 = s) (hv : l.file.valid)
    (h : l.file.Built) :
    ∃ bytes, l.serialize = some bytes ∧ l.serializeSize = some bytes.length
      ∧ fromSerialized fromUtf8Safe bytes = some l := by
  obtain ⟨bytes, hw⟩ := DownloadLocation.written_of_valid hUtf8 hv h
  refine ⟨l.append bytes, ?_, ?_, ?_⟩
  · rw [serialize, hw.serialize]
    rfl
  · rw [serializeSize, hw.size, SizedLocation.length_append hw.ne_nil]
    rfl
  · have hread := hw.read (putInt32 l.width ++ putInt32 l.height)
    rw [← SizedLocation.append_of_ne_nil hw.ne_nil] at hread
    rw [fromSerialized, hread, SizedLocation.fromSerialized_append hw.ne_nil]

theorem survives_of_valid (hUtf8 : ∀ s, fromUtf8Safe s.toUtf8 = s) (hv : l.file.valid)
    (h : l.file.Built) : l.Survives fromUtf8Safe := by
  obtain ⟨bytes, hbytes, hsize, hread⟩ := written_of_valid hUtf8 hv h
  exact ⟨bytes, bytes.length, hbytes, hsize, Nat.le_refl _, hread⟩

theorem survives_default : ImageLocation.Survives fromUtf8Safe { file := .storage {} } :=
  ⟨[], 0, rfl, rfl, Nat.le_refl _, rfl⟩

/-- Of the invalid locations only the empty one is read back. -/
theorem eq_default_of_survives (hv : ¬ l.file.valid) (h : l.Survives fromUtf8Safe) :
    l = { file := .storage {} } := by
  obtain ⟨bytes, size, hbytes, _, _, hread⟩ := h
  obtain ⟨fileBytes, hfile, happend⟩ := Option.map_eq_some_iff.mp hbytes
  obtain ⟨file, hstorage, _, rfl⟩ := DownloadLocation.storage_of_serialize hv hfile
  rcases SizedLocation.append_nil l with hnil | height
  · rw [← happend, hnil] at hread
    exact (Option.some.inj hread).symm
  · -- The size alone is not read as a storage location.
    rw [happend] at height
    have hne : bytes ≠ [] := List.ne_nil_of_length_pos (by omega)
    have hshort : bytes.length < 29 := by omega
    have hdown := SizedLocation.file_of_fromSerialized hread
    have hkind := DownloadLocation.fromSerialized_of_short hne hshort hdown
    rw [hstorage] at hkind
    cases hkind

end ImageLocation

namespace StorageImageLocation

def Survives (l : StorageImageLocation) : Prop :=
  ∃ bytes, l.serialize = some bytes ∧ bytes.length ≤ l.serializeSize
    ∧ fromSerialized bytes = some l

variable {l : StorageImageLocation}

theorem survives_of_valid (hv : l.file.valid) (h : l.file.Built) : l.Survives := by
  have hne : l.file.fieldBytes ≠ [] := by simpa using l.file.fieldBytes_ne_nil []
  refine ⟨l.append l.file.fieldBytes, ?_, ?_, ?_⟩
  · rw [serialize, l.file.serialize_of_valid hv h.wellBuilt]
    rfl
  · rw [serializeSize, ← StorageFileLocation.length_fieldBytes hv]
    exact (SizedLocation.length_append hne).le
  · have hread := StorageFileLocation.fromSerialized_fieldBytes hv h.wellBuilt
      (putInt32 l.width ++ putInt32 l.height)
    rw [← SizedLocation.append_of_ne_nil hne] at hread
    rw [fromSerialized, hread, SizedLocation.fromSerialized_append hne]

theorem survives_default : StorageImageLocation.Survives { file := {} } :=
  ⟨[], rfl, Nat.le_refl _, rfl⟩

theorem eq_default_of_survives (hv : ¬ l.file.valid) (h : l.Survives) : l = { file := {} } := by
  obtain ⟨bytes, hbytes, _, hread⟩ := h
  rw [serialize, StorageFileLocation.serialize_of_invalid hv] at hbytes
  have happend : l.append [] = bytes := Option.some.inj hbytes
  rcases SizedLocation.append_nil l with hnil | height
  · rw [← happend, hnil] at hread
    exact (Option.some.inj hread).symm
  · rw [happend] at height
    have hne : bytes ≠ [] := List.ne_nil_of_length_pos (by omega)
    have hshort : bytes.length < 29 := by omega
    have hfile := SizedLocation.file_of_fromSerialized hread
    rw [StorageFileLocation.fromSerialized_of_short hne hshort] at hfile
    cases hfile

end StorageImageLocation

/-- **The locations that survive are the valid ones and the empty one without a size.** -/
theorem ImageLocation.survives_iff (fromUtf8Safe : QByteArray → QString)
    (hUtf8 : ∀ s, fromUtf8Safe s.toUtf8 = s) :
    (∀ l : ImageLocation, l.file.Built →
        (l.Survives fromUtf8Safe ↔ l.file.valid ∨ l = { file := .storage {} }))
      ∧ ∀ l : StorageImageLocation, l.file.Built →
        (l.Survives ↔ l.file.valid ∨ l = { file := {} }) := by
  refine ⟨fun l hbuilt => ⟨fun h => ?_, ?_⟩, fun l hbuilt => ⟨fun h => ?_, ?_⟩⟩
  · exact or_iff_not_imp_left.mpr fun hv => ImageLocation.eq_default_of_survives hv h
  · rintro (hv | rfl)
    · exact ImageLocation.survives_of_valid hUtf8 hv hbuilt
    · exact ImageLocation.survives_default
  · exact or_iff_not_imp_left.mpr fun hv => StorageImageLocation.eq_default_of_survives hv h
  · rintro (hv | rfl)
    · exact StorageImageLocation.survives_of_valid hv hbuilt
    · exact StorageImageLocation.survives_default

/-- UTF-8, where the bytes are a text. -/
def decodeUtf8 (b : QByteArray) : QString :=
  if h : (ByteArray.mk b.bytes.toArray).IsValidUTF8 then
    if hsize : (ByteArray.mk b.bytes.toArray).size < 0xFFFFFFFF
        ∧ 2 * (Utf16.encode (String.ofByteArray _ h).toList).length < 0xFFFFFFFF then
      { text := String.ofByteArray _ h, utf8_lt := hsize.1, utf16_lt := hsize.2 }
    else
      {}
  else
    {}

theorem decodeUtf8_toUtf8 (s : QString) : decodeUtf8 s.toUtf8 = s := by
  have hbytes : ByteArray.mk s.toUtf8.bytes.toArray = s.text.toByteArray := by
    simp [QString.toUtf8]
  have hvalid : (ByteArray.mk s.toUtf8.bytes.toArray).IsValidUTF8 := by
    rw [hbytes]
    exact s.text.isValidUTF8
  have htext : String.ofByteArray _ hvalid = s.text := String.toByteArray_inj.mp hbytes
  have hsize : (ByteArray.mk s.toUtf8.bytes.toArray).size < 0xFFFFFFFF
      ∧ 2 * (Utf16.encode (String.ofByteArray _ hvalid).toList).length < 0xFFFFFFFF := by
    rw [htext, hbytes]
    exact ⟨s.utf8_lt, s.utf16_lt⟩
  rw [decodeUtf8, dif_pos hvalid, dif_pos hsize]
  cases s
  congr

/-- A thumbnail by its URL. -/
def urlThumbnail : ImageLocation where
  file := .plainUrl { text := "https://a" }
  width := 90
  height := 60

theorem ImageLocation.survives_urlThumbnail : urlThumbnail.Survives decodeUtf8 :=
  ((ImageLocation.survives_iff decodeUtf8 decodeUtf8_toUtf8).1 urlThumbnail trivial).mpr
    (Or.inl rfl)

/-- An invalid location with a width is not read back. -/
theorem ImageLocation.not_survives : ¬ ∃ fromUtf8Safe : QByteArray → QString,
    ∀ l : ImageLocation, l.file.Built → 0 ≤ l.width → 0 ≤ l.height → l.Survives fromUtf8Safe := by
  rintro ⟨fromUtf8Safe, h⟩
  have hl := h { file := .storage {}, width := 1 } .invalid (by decide) (by decide)
  cases ImageLocation.eq_default_of_survives (by decide) hl

end MessengerClient
