import MessengerClient.Backend.Memberships
import MessengerClient.Lib.Keys
import Mathlib

/-!
# MessengerClient.Backend.Files

Files, as the endpoints of `backend/app/api/files.py` store them and find them again.

An object is named after the id of its file and what is behind the last dot of its filename, and it
is looked for by a prefix.  The ids of other files are no prefixes of its name, but parts of its own
id are, and so is more than its id; and a listing has no object with a slash behind the prefix, but
the part up to the slash (`download_iff`).

The user who asks is left out, and so are dates.
-/

namespace MessengerClient

namespace Backend

namespace Files

/-- `str(uuid.uuid4())`. -/
structure FileId where
  text : List Char
  length : text.length = 36
  chars : ∀ c ∈ text, c ∈ ['-', '0', '1', '2', '3', '4', '5', '6', '7', '8', '9', 'a', 'b', 'c',
    'd', 'e', 'f']

structure UploadFile where
  filename : Option (List Char)
  contentType : Option String := none
  content : List UInt8

/-! ## The object storage -/

structure StoredObject where
  objectName : List Char
  content : List UInt8
  contentType : String
deriving DecidableEq

abbrev Bucket : Type := List StoredObject

/-- What a listing has of an object, or of all with one part up to a slash. -/
structure ListedObject where
  objectName : List Char
  size : Option Nat
  contentType : Option String := none
deriving DecidableEq

/-- Objects are stored by their names. -/
def putObject (bucket : Bucket) (object : StoredObject) : Bucket :=
  bucket.filter (·.objectName ≠ object.objectName) ++ [object]

/-- An object that is not there raises. -/
def getObject (bucket : Bucket) (objectName : List Char) : Except Failure StoredObject :=
  required (bucket.find? (·.objectName = objectName))

/-- What a listing shows of an object whose name has a prefix. -/
def listed (pref : List Char) (object : StoredObject) : ListedObject :=
  let rest := object.objectName.drop pref.length
  if '/' ∈ rest then
    { objectName := pref ++ rest.takeWhile (· ≠ '/') ++ ['/'], size := none }
  else { objectName := object.objectName, size := some object.content.length }

/-- `list_objects(prefix=…)`, which is not recursive. -/
def listObjects (bucket : Bucket) (pref : List Char) : List ListedObject :=
  let objects := bucket.filter fun object => pref.isPrefixOf object.objectName
  (objects.map (listed pref)).dedup.mergeSort fun a b => a.objectName ≤ b.objectName

/-! ## The endpoints -/

/-- `filename.rsplit(".", 1)[-1]`, or the extension of a file that has none. -/
def extension (file : UploadFile) : List Char :=
  let filename := file.filename.getD []
  if '.' ∈ filename then (filename.reverse.takeWhile (· ≠ '.')).reverse else ['b', 'i', 'n']

def objectName (fileId : FileId) (file : UploadFile) : List Char :=
  fileId.text ++ '.' :: extension file

structure UploadResponse where
  id : List Char
  filename : Option (List Char)
  objectName : List Char
  size : Nat
  contentType : Option String

/-- `upload_file`; `fileId` is the id that the file gets. -/
def uploadFile (bucket : Bucket) (fileId : FileId) (file : UploadFile) :
    UploadResponse × Bucket :=
  ({ id := fileId.text
     filename := file.filename
     objectName := objectName fileId file
     size := file.content.length
     contentType := file.contentType },
    putObject bucket {
      objectName := objectName fileId file
      content := file.content
      contentType := file.contentType.getD "application/octet-stream" })

def notFound : Failure := .http 404 "File not found"

structure StreamingResponse where
  content : List UInt8
  mediaType : String
  contentDisposition : List Char

/-- The header that names the file. -/
def contentDisposition (objectName : List Char) : List Char :=
  "attachment; filename=\"".toList ++ objectName ++ ['"']

/-- `download_file`; a response raises if it does not take the header. -/
def downloadFile (takesHeader : List Char → Bool) (bucket : Bucket) (fileId : List Char) :
    Except Failure StreamingResponse :=
  match listObjects bucket fileId with
  | [] => .error notFound
  | obj :: _ => do
    let response ← getObject bucket obj.objectName
    if takesHeader (contentDisposition obj.objectName) then
      .ok {
        content := response.content
        mediaType := obj.contentType.getD "application/octet-stream"
        contentDisposition := contentDisposition obj.objectName }
    else .error .internal

structure FileInfo where
  id : List Char
  objectName : List Char
  size : Option Nat
  contentType : Option String

def getFileInfo (bucket : Bucket) (fileId : List Char) : Except Failure FileInfo :=
  match listObjects bucket fileId with
  | [] => .error notFound
  | obj :: _ => .ok {
      id := fileId
      objectName := obj.objectName
      size := obj.size
      contentType := obj.contentType }

/-! ## What is to be of a file -/

/-- A file with the id it got. -/
abbrev Upload : Type := FileId × UploadFile

/-- The objects after some uploads. -/
def store (uploads : List Upload) : Bucket :=
  uploads.foldl (fun bucket upload => (uploadFile bucket upload.1 upload.2).2) []

/-- A file is answered under its id, and nothing under any other. -/
structure Answered (takesHeader : List Char → Bool) (uploads : List Upload) (fileId : List Char) :
    Prop where
  found : ∀ upload ∈ uploads, upload.1.text = fileId →
    (∃ response, downloadFile takesHeader (store uploads) fileId = .ok response ∧
      response.content = upload.2.content ∧
        response.contentDisposition = contentDisposition (objectName upload.1 upload.2)) ∧
    ∃ info, getFileInfo (store uploads) fileId = .ok info ∧
      info.objectName = objectName upload.1 upload.2 ∧
        info.size = some upload.2.content.length
  missing : (∀ upload ∈ uploads, upload.1.text ≠ fileId) →
    downloadFile takesHeader (store uploads) fileId = .error notFound ∧
      getFileInfo (store uploads) fileId = .error notFound

/-- The extension of the file with this id has no slash and may stand in a header; and if no file
has this id, no object's name begins with it. -/
structure Findable (takesHeader : List Char → Bool) (uploads : List Upload) (fileId : List Char) :
    Prop where
  found : ∀ upload ∈ uploads, upload.1.text = fileId → '/' ∉ extension upload.2 ∧
    takesHeader (contentDisposition (objectName upload.1 upload.2))
  missing : (∀ upload ∈ uploads, upload.1.text ≠ fileId) →
    ∀ upload ∈ uploads, ¬fileId <+: objectName upload.1 upload.2

variable {uploads : List Upload} {upload other : Upload} {bucket : Bucket} {pref : List Char}
  {takesHeader : List Char → Bool}

/-- What is stored of a file. -/
def object (upload : Upload) : StoredObject where
  objectName := objectName upload.1 upload.2
  content := upload.2.content
  contentType := upload.2.contentType.getD "application/octet-stream"

/-- Uploads whose ids are all different. -/
def Apart (uploads : List Upload) : Prop := (uploads.map (·.1.text)).Nodup

/-! ## Names -/

/-- **An id is a prefix** of the name of its own file only. -/
theorem text_prefix_iff (fileId : FileId) (upload : Upload) :
    fileId.text <+: objectName upload.1 upload.2 ↔ upload.1.text = fileId.text := by
  have hlength : fileId.text.length = upload.1.text.length := by
    rw [fileId.length, upload.1.length]
  constructor
  · intro hprefix
    have htake := List.prefix_iff_eq_take.mp hprefix
    rw [objectName, hlength, List.take_left] at htake
    exact htake.symm
  · intro heq
    rw [← heq, objectName]
    exact List.prefix_append _ _

theorem objectName_ne (h : upload.1.text ≠ other.1.text) :
    objectName upload.1 upload.2 ≠ objectName other.1 other.2 := by
  intro heq
  have hprefix : other.1.text <+: objectName upload.1 upload.2 := by
    rw [heq, text_prefix_iff]
  exact h ((text_prefix_iff other.1 upload).mp hprefix)

/-- **Files do not replace each other.** -/
theorem store_eq (h : Apart uploads) : store uploads = uploads.map object := by
  induction uploads using List.reverseRecOn with
  | nil => rfl
  | append_singleton uploads upload ih =>
    rw [Apart, List.map_append, List.nodup_append] at h
    obtain ⟨hfront, -, hnew⟩ := h
    have hstore : store (uploads ++ [upload]) = putObject (store uploads) (object upload) := by
      rw [store, List.foldl_append]
      rfl
    rw [hstore, ih hfront, putObject, List.map_append]
    congr 1
    refine List.filter_eq_self.mpr fun stored hstored => ?_
    obtain ⟨other, hother, rfl⟩ := List.mem_map.mp hstored
    refine decide_eq_true (objectName_ne ?_)
    exact hnew _ (List.mem_map_of_mem hother) _ (List.mem_singleton_self _)

/-! ## Listings -/

theorem listObjects_eq_nil : listObjects bucket pref = [] ↔
    ∀ stored ∈ bucket, ¬pref <+: stored.objectName := by
  have hlength : listObjects bucket pref = [] ↔
      ((bucket.filter fun stored => pref.isPrefixOf stored.objectName).map (listed pref)).dedup =
        [] := by
    rw [← List.length_eq_zero_iff, listObjects, List.length_mergeSort, List.length_eq_zero_iff]
  rw [hlength, List.dedup_eq_nil, List.map_eq_nil_iff, List.filter_eq_nil_iff]
  simp

/-- **A listing** by an id has the object of its file alone. -/
theorem listObjects_eq (h : Apart uploads) (hupload : upload ∈ uploads) :
    listObjects (uploads.map object) upload.1.text =
      [listed upload.1.text (object upload)] := by
  have hfilter : (uploads.map object).filter
      (fun stored => upload.1.text.isPrefixOf stored.objectName) = [object upload] := by
    rw [List.filter_map]
    have hkey : uploads.filter
        ((fun stored : StoredObject => upload.1.text.isPrefixOf stored.objectName) ∘ object) =
          uploads.filter fun other => other.1.text = upload.1.text := by
      refine List.filter_congr fun other _ => ?_
      rw [Bool.eq_iff_iff, Function.comp_apply, List.isPrefixOf_iff_prefix, decide_eq_true_eq]
      exact text_prefix_iff upload.1 other
    rw [hkey, Keys.filter_of_mem h hupload]
    rfl
  rw [listObjects, hfilter]
  simp

theorem getObject_eq (h : Apart uploads) (hupload : upload ∈ uploads) :
    getObject (uploads.map object) (objectName upload.1 upload.2) = .ok (object upload) := by
  have hfind : (uploads.map object).find?
      (·.objectName = objectName upload.1 upload.2) = some (object upload) := by
    cases hfind : (uploads.map object).find? (·.objectName = objectName upload.1 upload.2) with
    | none =>
      have hnone := List.find?_eq_none.mp hfind _ (List.mem_map_of_mem hupload)
      simp [object] at hnone
    | some stored =>
      have hsome := List.find?_some hfind
      obtain ⟨other, hother, rfl⟩ := List.mem_map.mp (List.mem_of_find?_eq_some hfind)
      have hname : objectName other.1 other.2 = objectName upload.1 upload.2 :=
        of_decide_eq_true hsome
      have htext : other.1.text = upload.1.text := by
        by_contra hne
        exact objectName_ne hne hname
      rw [List.inj_on_of_nodup_map h hother hupload htext]
  rw [getObject, hfind]
  rfl

/-- What the listing by an id shows of the object of its file. -/
theorem listed_eq (upload : Upload) : listed upload.1.text (object upload) =
    if '/' ∈ extension upload.2 then
      { objectName := upload.1.text ++ ('.' :: extension upload.2).takeWhile (· ≠ '/') ++ ['/']
        size := none }
    else { objectName := objectName upload.1 upload.2, size := some upload.2.content.length } := by
  have hrest : (object upload).objectName.drop upload.1.text.length = '.' :: extension upload.2 :=
    List.drop_left
  have hslash : '/' ∈ '.' :: extension upload.2 ↔ '/' ∈ extension upload.2 := by simp
  rw [listed, hrest]
  simp only [hslash]
  rfl

/-! ## Answers -/

theorem getFileInfo_eq_notFound {fileId : List Char} :
    getFileInfo bucket fileId = .error notFound ↔ listObjects bucket fileId = [] := by
  rw [getFileInfo]
  cases listObjects bucket fileId <;> simp

/-- A file whose extension has no slash is sent if its name may stand in a header. -/
theorem downloadFile_eq (h : Apart uploads) (hupload : upload ∈ uploads)
    (hslash : '/' ∉ extension upload.2) :
    downloadFile takesHeader (uploads.map object) upload.1.text =
      if takesHeader (contentDisposition (objectName upload.1 upload.2)) then
        .ok {
          content := upload.2.content
          mediaType := "application/octet-stream"
          contentDisposition := contentDisposition (objectName upload.1 upload.2) }
      else .error .internal := by
  rw [downloadFile, listObjects_eq h hupload, listed_eq, if_neg hslash]
  simp only [getObject_eq h hupload]
  rfl

/-- **An id that was returned** is answered with its file if and only if its extension has no slash
and may stand in a header. -/
theorem found_iff (h : Apart uploads) (hupload : upload ∈ uploads) :
    ((∃ response, downloadFile takesHeader (store uploads) upload.1.text = .ok response ∧
        response.content = upload.2.content ∧
          response.contentDisposition = contentDisposition (objectName upload.1 upload.2)) ∧
      ∃ info, getFileInfo (store uploads) upload.1.text = .ok info ∧
        info.objectName = objectName upload.1 upload.2 ∧
          info.size = some upload.2.content.length) ↔
    '/' ∉ extension upload.2 ∧ takesHeader (contentDisposition (objectName upload.1 upload.2)) := by
  rw [store_eq h, getFileInfo, listObjects_eq h hupload, listed_eq]
  by_cases hslash : '/' ∈ extension upload.2
  · rw [if_pos hslash]
    refine iff_of_false ?_ fun hnot => hnot.1 hslash
    rintro ⟨-, info, hinfo, -, hsize⟩
    rw [← Except.ok.inj hinfo] at hsize
    cases hsize
  · rw [if_neg hslash, downloadFile_eq h hupload hslash]
    constructor
    · rintro ⟨⟨response, hresponse, -⟩, -⟩
      refine ⟨hslash, ?_⟩
      by_contra hheader
      rw [if_neg hheader] at hresponse
      cases hresponse
    · rintro ⟨-, hheader⟩
      exact ⟨⟨_, if_pos hheader, rfl, rfl⟩, _, rfl, rfl, rfl⟩

/-- **A download returns the file it names**, and nothing for any other text, if and only if the
file's extension has no slash and may stand in a header, and a text that is no id is no beginning
of an object's name. -/
theorem download_iff (takesHeader : List Char → Bool) (uploads : List Upload)
    (h : Apart uploads) (fileId : List Char) :
    Answered takesHeader uploads fileId ↔ Findable takesHeader uploads fileId := by
  have hmissing : (∀ stored ∈ uploads.map object, ¬fileId <+: stored.objectName) ↔
      ∀ upload ∈ uploads, ¬fileId <+: objectName upload.1 upload.2 := List.forall_mem_map
  constructor
  · intro hanswered
    refine ⟨?_, fun hnone => ?_⟩
    · rintro upload hupload rfl
      exact (found_iff h hupload).mp (hanswered.found upload hupload rfl)
    · have hinfo := (hanswered.missing hnone).2
      rw [getFileInfo_eq_notFound, store_eq h, listObjects_eq_nil] at hinfo
      exact hmissing.mp hinfo
  · intro hfindable
    refine ⟨?_, fun hnone => ?_⟩
    · rintro upload hupload rfl
      exact (found_iff h hupload).mpr (hfindable.found upload hupload rfl)
    · have hnil : listObjects (store uploads) fileId = [] := by
        rw [store_eq h, listObjects_eq_nil]
        exact hmissing.mpr (hfindable.missing hnone)
      rw [downloadFile, getFileInfo, hnil]
      exact ⟨rfl, rfl⟩

/-- The id of zeros. -/
def zeroId : FileId := ⟨List.replicate 36 '0', by simp, by simp⟩

/-- The file `a.txt`. -/
def textFile : UploadFile where
  filename := some ['a', '.', 't', 'x', 't']
  content := [0x68, 0x69]

theorem download_iff_textFile :
    Answered (fun _ => true) [(zeroId, textFile)] zeroId.text := by
  refine (download_iff (fun _ => true) [(zeroId, textFile)] (List.nodup_singleton _)
    zeroId.text).mpr ⟨?_, fun hnone => absurd rfl (hnone _ List.mem_cons_self)⟩
  rintro upload hupload -
  obtain rfl := List.mem_singleton.mp hupload
  exact ⟨by decide, rfl⟩

/-- A file is answered for the first character of its id. -/
theorem not_download : ¬∀ (takesHeader : List Char → Bool) (uploads : List Upload),
    Apart uploads → ∀ fileId, Answered takesHeader uploads fileId := by
  intro h
  have hapart : Apart [(zeroId, textFile)] := List.nodup_singleton _
  have hanswered := h (fun _ => true) [(zeroId, textFile)] hapart ['0']
  have hnone : ∀ upload ∈ [(zeroId, textFile)], upload.1.text ≠ ['0'] := by
    simp [zeroId]
  have hinfo := (hanswered.missing hnone).2
  rw [getFileInfo_eq_notFound, store_eq hapart, listObjects_eq_nil] at hinfo
  refine hinfo (object (zeroId, textFile)) List.mem_cons_self ?_
  exact ⟨List.replicate 35 '0' ++ '.' :: extension textFile, rfl⟩

end Files

end Backend

end MessengerClient
