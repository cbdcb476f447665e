import MessengerClient.Storage.Encrypted
import MessengerClient.Storage.WriteNow
import Mathlib.Logic.Equiv.Basic
import Mathlib.Algebra.Order.BigOperators.Group.List

/-!
# MessengerClient.Storage.ReadBack

The byte arrays of a local file, plain and encrypted ones, as they are read of its stream.

The writer and the reader count the data in a `qint32` and an `int32`.  From `2 ^ 31` bytes on
the reader gets a negative count, or one that is too small, so the arrays are read back just
when they take less.
-/

namespace MessengerClient

namespace Storage

/-! ## Reading arrays -/

/-- `stream >> data`: an array may be null, as it is where it was cut off. -/
def readArray : Get (Option Bytes) := do
  let length ← Get.uint32
  if length = 0xFFFFFFFF then
    return none
  else
    Option.map Subtype.val <$> Get.block length.toNat

def readArrays : Nat → Get (List (Option Bytes))
  | 0 => return []
  | n + 1 => do
      let array ← readArray
      let arrays ← readArrays n
      return array :: arrays

/-- What an array takes in the stream. -/
def arraySize (array : Option Bytes) : Nat := 4 + (array.getD []).length

def putArray (array : Option Bytes) : Bytes :=
  beBytes 4 (FileWriteDescriptor.length array) ++ array.getD []

theorem length_putArray (array : Option Bytes) : (putArray array).length = arraySize array := by
  rw [putArray, List.length_append, length_beBytes, arraySize]

theorem readArray_reads {array : Option Bytes} (h : (array.getD []).length < 0xFFFFFFFF) :
    Reads readArray (putArray array) array := by
  cases array with
  | none =>
      refine (Reads.uint32 0xFFFFFFFF).bind ?_
      rw [if_pos rfl]
      exact Reads.pure none
  | some data =>
      have hlt : data.length < 0xFFFFFFFF := h
      have hn : (UInt32.ofNat data.length).toNat = data.length :=
        UInt32.toNat_ofNat_of_lt' (hlt.trans (by decide))
      have hne : UInt32.ofNat data.length ≠ 0xFFFFFFFF := by
        intro heq
        rw [heq] at hn
        exact absurd hn.symm hlt.ne
      have hcount := Reads.uint32 (UInt32.ofNat data.length)
      rw [putUInt32, hn] at hcount
      refine hcount.bind ?_
      rw [if_neg hne]
      exact (Reads.block hn.symm).map _

/-- Arrays of known lengths are read one after another. -/
theorem readArrays_reads (arrays : List (Option Bytes))
    (h : ∀ array ∈ arrays, (array.getD []).length < 0xFFFFFFFF) :
    Reads (readArrays arrays.length) (arrays.flatMap putArray) arrays := by
  induction arrays with
  | nil => exact Reads.pure []
  | cons array arrays ih =>
      obtain ⟨harray, harrays⟩ := List.forall_mem_cons.mp h
      rw [List.flatMap_cons, List.length_cons, readArrays]
      exact (readArray_reads harray).bind ((ih harrays).ret fun arrays => array :: arrays)

/-- A block that is read in good state is of the length that was asked for. -/
theorem block_takes {n : Nat} {s : DataStream} (h : (Get.block n s).2.ok = true) :
    s.ok = true ∧ (Get.block n s).2.rest.length +
      (((Get.block n s).1.map Subtype.val).getD []).length ≤ s.rest.length := by
  unfold Get.block at h ⊢
  split at h
  · next hle =>
      rw [dif_pos hle]
      refine ⟨h, ?_⟩
      simp only [Option.map_some, Option.getD_some, List.length_drop, List.length_take]
      omega
  · cases h

/-- An array that is read in good state was there as a whole. -/
theorem readArray_takes {s : DataStream} (h : (readArray s).2.ok = true) :
    s.ok = true ∧ (readArray s).2.rest.length + arraySize (readArray s).1 ≤ s.rest.length := by
  unfold readArray at h ⊢
  rw [Get.bind_apply] at h ⊢
  have hlength := Needs.uint32 s
  generalize Get.uint32 s = r at h hlength ⊢
  split at h
  · next hnull =>
      rw [if_pos hnull]
      exact hlength h
  · next hnull =>
      rw [if_neg hnull]
      obtain ⟨hok, hblock⟩ := block_takes h
      obtain ⟨hs, hle⟩ := hlength hok
      refine ⟨hs, ?_⟩
      have hsame : ((Option.map Subtype.val <$> Get.block r.1.toNat) r.2 : _ × DataStream) =
        ((Get.block r.1.toNat r.2).1.map Subtype.val, (Get.block r.1.toNat r.2).2) := rfl
      rw [hsame, arraySize]
      dsimp only
      omega

/-- So were all of them. -/
theorem readArrays_takes {n : Nat} {s : DataStream} (h : (readArrays n s).2.ok = true) :
    s.ok = true ∧ (readArrays n s).2.rest.length + ((readArrays n s).1.map arraySize).sum ≤
      s.rest.length := by
  induction n generalizing s with
  | zero => exact ⟨h, le_refl _⟩
  | succ n ih =>
      have hsame : readArrays (n + 1) s =
          ((readArray s).1 :: (readArrays n (readArray s).2).1,
            (readArrays n (readArray s).2).2) := rfl
      rw [hsame] at h ⊢
      obtain ⟨hmiddle, hrest⟩ := ih h
      obtain ⟨hs, hfirst⟩ := readArray_takes hmiddle
      refine ⟨hs, ?_⟩
      dsimp only
      rw [List.map_cons, List.sum_cons]
      omega

/-! ## Files of arrays -/

/-- The file of some arrays passes the checks, and its stream gives the arrays. -/
def Restored (md5 : Bytes → Bytes) (w : FileWriteDescriptor) (arrays : List (Option Bytes)) :
    Prop :=
  ∃ result, readOne md5 (w.finish md5).full = some result ∧
    readArrays arrays.length { rest := result.data } = (arrays, { rest := [] })

namespace FileWriteDescriptor

theorem safeData_foldl (arrays : List (Option Bytes)) (w : FileWriteDescriptor) :
    (arrays.foldl writeData w).safeData = w.safeData ++ arrays.flatMap putArray := by
  induction arrays generalizing w with
  | nil => simp
  | cons array arrays ih =>
      rw [List.foldl_cons, ih, List.flatMap_cons, ← List.append_assoc]
      rfl

theorem safeData_written (arrays : List (Option Bytes)) :
    (written arrays).safeData = arrays.flatMap putArray :=
  (safeData_foldl arrays {}).trans (List.nil_append _)

theorem length_safeData_written (arrays : List (Option Bytes)) :
    (written arrays).safeData.length = (arrays.map arraySize).sum := by
  rw [safeData_written, List.length_flatMap]
  exact congrArg List.sum (List.map_congr_left fun array _ => length_putArray array)

end FileWriteDescriptor

/-- What is read of a file is less than `2 ^ 31` bytes of it. -/
theorem length_readOne_lt {md5 : Bytes → Bytes} {content : Bytes} {result : FileReadDescriptor}
    (h : readOne md5 content = some result) : result.data.length < 2 ^ 31 := by
  unfold readOne at h
  split at h
  · split at h
    · cases h
    · next word bytes hword =>
        dsimp only at h
        split at h
        · cases h
        · split at h
          · cases h
            have hlt : i32 (bytes.length - 16) < 2 ^ 31 := BitVec.toInt_lt
            rw [List.length_take]
            omega
          · cases h
  · cases h

/-- **The round trip of a file.**  The arrays are read back just when they take less than
`2 ^ 31` bytes. -/
theorem restored_iff_lt {md5 : Bytes → Bytes} (hmd5 : ∀ bytes, (md5 bytes).length = 16)
    (arrays : List (Option Bytes)) :
    Restored md5 (FileWriteDescriptor.written arrays) arrays ↔
      (arrays.map arraySize).sum < 2 ^ 31 := by
  constructor
  · rintro ⟨result, hresult, hread⟩
    have hlt := length_readOne_lt hresult
    have htakes := (readArrays_takes (n := arrays.length) (s := { rest := result.data })
      (by rw [hread])).2
    rw [hread] at htakes
    dsimp only at htakes
    omega
  · intro hlt
    have hsize := FileWriteDescriptor.length_safeData_written arrays
    have hshort (array) (harray : array ∈ arrays) : (array.getD []).length < 0xFFFFFFFF := by
      have hle := List.single_le_sum (fun _ _ => Nat.zero_le _) _
        (List.mem_map_of_mem (f := arraySize) harray)
      have harraySize : arraySize array = 4 + (array.getD []).length := rfl
      omega
    refine ⟨_, readOne_full hmd5 arrays (by omega), ?_⟩
    have hread := readArrays_reads arrays hshort []
    rw [List.append_nil, ← FileWriteDescriptor.safeData_written] at hread
    exact hread

/-! ## Plain and encrypted arrays -/

/-- What is passed to `writeData`, or to `writeEncrypted`. -/
inductive Item where
  | data (array : Option Bytes)
  | encrypted (data : Bytes) (random : Nat → UInt8)

variable {AuthKey : Type} (lib : Crypto AuthKey) (key : AuthKey)

def FileWriteDescriptor.writeEncrypted (w : FileWriteDescriptor) (data : Bytes)
    (random : Nat → UInt8) : Option FileWriteDescriptor :=
  (PrepareEncrypted lib data random key).map fun encrypted => w.writeData (some encrypted)

namespace Item

def write (w : FileWriteDescriptor) : Item → Option FileWriteDescriptor
  | .data array => some (w.writeData array)
  | .encrypted content random => w.writeEncrypted lib key content random

/-- The array that is written. -/
def array : Item → Option (Option Bytes)
  | .data array => some array
  | .encrypted content random => (PrepareEncrypted lib content random key).map some

/-- The size of an encrypted content, as a `uint32`, is not `0` and leaves two blocks. -/
def Sized : Item → Prop
  | .data _ => True
  | .encrypted content _ => 0 < u32 content.length ∧ u32 content.length ≤ 2 ^ 32 - 32

/-- What an item takes in the stream. -/
def size : Item → Nat
  | .data array => arraySize array
  | .encrypted content _ => 4 + (16 + fullSize (u32 content.length))

theorem write_eq (w : FileWriteDescriptor) (item : Item) :
    item.write lib key w = (item.array lib key).map w.writeData := by
  cases item with
  | data array => rfl
  | encrypted data random =>
      rw [write, FileWriteDescriptor.writeEncrypted, array, Option.map_map]
      rfl

theorem array_isSome_iff (item : Item) : (item.array lib key).isSome ↔ item.Sized := by
  cases item with
  | data a => simp [Item.array, Sized]
  | encrypted data random =>
      rw [array, Option.isSome_map]
      exact PrepareEncrypted_isSome_iff lib data random key

theorem arraySize_array {lib : Crypto AuthKey} (hlib : lib.Lawful) {key : AuthKey} {item : Item}
    {a : Option Bytes} (h : item.array lib key = some a) : arraySize a = item.size := by
  cases item with
  | data array =>
      cases h
      rfl
  | encrypted data random =>
      obtain ⟨encrypted, hprepared, rfl⟩ := Option.map_eq_some_iff.mp h
      rw [arraySize, Option.getD_some, length_PrepareEncrypted hlib hprepared, size]

end Item

/-- The arrays of some items. -/
def arraysOf (items : List Item) : Option (List (Option Bytes)) :=
  items.mapM fun item => item.array lib key

def writeAll (items : List Item) : Option FileWriteDescriptor :=
  items.foldlM (fun w item => item.write lib key w) {}

theorem writeAll_eq (items : List Item) :
    writeAll lib key items = (arraysOf lib key items).map FileWriteDescriptor.written := by
  have hfold (w : FileWriteDescriptor) :
      items.foldlM (fun w item => item.write lib key w) w =
        (arraysOf lib key items).map fun arrays =>
          arrays.foldl FileWriteDescriptor.writeData w := by
    unfold arraysOf
    induction items generalizing w with
    | nil => rfl
    | cons item items ih =>
        rw [List.foldlM_cons, List.mapM_cons, Item.write_eq]
        cases item.array lib key with
        | none => rfl
        | some array =>
            simp only [Option.map_some, Option.bind_eq_bind, Option.bind_some, ih]
            cases items.mapM fun item => item.array lib key <;> rfl
  exact hfold {}

theorem arraysOf_isSome_iff (items : List Item) :
    (arraysOf lib key items).isSome ↔ ∀ item ∈ items, item.Sized := by
  unfold arraysOf
  induction items with
  | nil => simp
  | cons item items ih =>
      rw [List.mapM_cons, List.forall_mem_cons, ← ih, ← Item.array_isSome_iff lib key]
      cases item.array lib key <;> cases items.mapM fun item => item.array lib key <;> simp

theorem sum_arraysOf {lib : Crypto AuthKey} (hlib : lib.Lawful) {key : AuthKey}
    {items : List Item} {arrays : List (Option Bytes)}
    (h : arraysOf lib key items = some arrays) :
    (arrays.map arraySize).sum = (items.map Item.size).sum := by
  unfold arraysOf at h
  induction items generalizing arrays with
  | nil =>
      cases h
      rfl
  | cons item items ih =>
      rw [List.mapM_cons] at h
      obtain ⟨array, harray, h⟩ := Option.bind_eq_some_iff.mp h
      obtain ⟨rest, hrest, h⟩ := Option.bind_eq_some_iff.mp h
      cases h
      rw [List.map_cons, List.map_cons, List.sum_cons, List.sum_cons, ih hrest,
        Item.arraySize_array hlib harray]

/-- The items are written, and what was written of them is read back. -/
def ReadsBack (items : List Item) : Prop :=
  ∃ arrays w, arraysOf lib key items = some arrays ∧ writeAll lib key items = some w ∧
    Restored lib.md5 w arrays

variable {lib}

theorem readsBack_iff_lt (hlib : lib.Lawful) (items : List Item) :
    ReadsBack lib key items ↔
      (∀ item ∈ items, item.Sized) ∧ (items.map Item.size).sum < 2 ^ 31 := by
  constructor
  · rintro ⟨arrays, w, harrays, hw, hrestored⟩
    rw [writeAll_eq, harrays] at hw
    cases hw
    refine ⟨(arraysOf_isSome_iff lib key items).mp (by rw [harrays]; rfl), ?_⟩
    rw [← sum_arraysOf hlib harrays]
    exact (restored_iff_lt hlib.length_md5 arrays).mp hrestored
  · rintro ⟨hsized, hlt⟩
    obtain ⟨arrays, harrays⟩ :=
      Option.isSome_iff_exists.mp ((arraysOf_isSome_iff lib key items).mpr hsized)
    refine ⟨arrays, _, harrays, by rw [writeAll_eq, harrays]; rfl, ?_⟩
    rw [← sum_arraysOf hlib harrays] at hlt
    exact (restored_iff_lt hlib.length_md5 arrays).mpr hlt

/-- **What is written encrypted is read back**: the items of a file, just when they are
`Sized` and take less than `2 ^ 31` bytes, and what is encrypted, just when it leaves two
blocks of what a `uint32` counts. -/
theorem read_back_iff_small (hlib : lib.Lawful) :
    (∀ items : List Item, ReadsBack lib key items ↔
      (∀ item ∈ items, item.Sized) ∧ (items.map Item.size).sum < 2 ^ 31) ∧
    ∀ (data : Bytes) (random : Nat → UInt8), 4 ≤ data.length →
      (Decrypts lib data random key ↔ data.length ≤ 2 ^ 32 - 32) :=
  ⟨readsBack_iff_lt key hlib, fun _ random hfour => decrypts_iff_le hlib hfour random key⟩

/-! ### A descriptor with no data

The library at the values that the real one has here, under a key of zeros. -/

namespace Prepared

def plain : Bytes := le32 4 ++ List.replicate 12 0

def sha1 : Bytes :=
  [125, 65, 246, 183, 182, 163, 99, 60, 238, 201, 136, 248, 109, 141, 194, 221, 101, 198, 39, 145]

def cipher : Bytes :=
  [254, 199, 182, 151, 239, 186, 222, 28, 204, 35, 181, 221, 131, 161, 244, 232]

def md5 : Bytes := [215, 50, 207, 9, 12, 217, 9, 124, 151, 33, 111, 121, 170, 8, 191, 13]

def crypto : Crypto Unit where
  md5 := fun _ => md5
  hashSha1 := fun _ => sha1
  aesEncryptLocal := fun bytes _ _ => Equiv.swap plain cipher bytes
  aesDecryptLocal := fun bytes _ _ => Equiv.swap plain cipher bytes

theorem lawful : crypto.Lawful where
  length_md5 := fun _ => rfl
  length_hashSha1 := fun _ => rfl
  length_aesEncryptLocal := fun bytes _ _ _ => by
    show (Equiv.swap plain cipher bytes).length = bytes.length
    rw [Equiv.swap_apply_def]
    split
    · next h => rw [h]; rfl
    · split
      · next h => rw [h]; rfl
      · rfl
  decrypt_encrypt := fun bytes _ _ _ => Equiv.swap_apply_self plain cipher bytes

/-- A null array, an empty one and a descriptor with its length only. -/
def items : List Item := [.data none, .data (some []), .encrypted [0, 0, 0, 0] fun _ => 0]

end Prepared

open Prepared in
theorem read_back_iff_small_prepared :
    ReadsBack crypto () items ∧ Decrypts crypto [0, 0, 0, 0] (fun _ => 0) () := by
  obtain ⟨hitems, hdecrypts⟩ := read_back_iff_small () lawful
  have hsized : ∀ item ∈ items, item.Sized := by
    simp only [items, List.forall_mem_cons, Item.Sized, true_and]
    exact ⟨⟨by decide, by decide⟩, by simp⟩
  exact ⟨(hitems items).mpr ⟨hsized, by decide⟩, (hdecrypts _ _ (by decide)).mpr (by decide)⟩

/-- An array of four bytes less than `2 ^ 31` is not read back. -/
theorem not_read_back :
    ¬ ∀ (lib : Crypto Unit), lib.Lawful → ∀ items, ReadsBack lib () items := by
  intro h
  have hitems := (readsBack_iff_lt () Prepared.lawful _).mp
    (h Prepared.crypto Prepared.lawful [.data (some (List.replicate (2 ^ 31 - 4) 0))])
  have hlt := hitems.2
  rw [List.map_singleton, List.sum_singleton, Item.size, arraySize, Option.getD_some,
    List.length_replicate] at hlt
  omega

end Storage

end MessengerClient
