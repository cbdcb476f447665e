import MessengerClient.Lib.DataStream
import MessengerClient.Lib.Interrupted

/-!
# MessengerClient.Storage.FileUtilities

`storage/details/storage_file_utilities.cpp`: how the contents of one local file are
written, under three names, which end in `s`, `0` and `1`, and read back.

`md5` stands for the digest.  Each step of a write ends as the disk chooses: a write of the
fallback file leaves any front of its data, while a `QSaveFile` remembers that a write has
failed and is not committed then.  Whether a directory is there is asked of the disk too.
-/

namespace MessengerClient

namespace Storage

/-! ## Files -/

inductive Postfix where
  | safe
  | simple
  | backup
deriving DecidableEq, Repr

structure File where
  content : Bytes
  lastModified : Nat
deriving DecidableEq, Repr

/-- The files of one base name. -/
structure Files where
  safe : Option File := none
  simple : Option File := none
  backup : Option File := none
deriving DecidableEq, Repr

namespace Files

def path (files : Files) : Postfix → Option File
  | .safe => files.safe
  | .simple => files.simple
  | .backup => files.backup

def remove (files : Files) : Postfix → Files
  | .safe => { files with safe := none }
  | .simple => { files with simple := none }
  | .backup => { files with backup := none }

end Files

def TdfMagic : Bytes := [0x54, 0x44, 0x46, 0x24]

def AppVersion : Nat := 7000003

section

variable (md5 : Bytes → Bytes)

/-! ## FileWriteDescriptor -/

structure WriteEntry where
  data : Bytes
  md5 : Bytes
deriving DecidableEq, Repr

structure FileWriteDescriptor where
  safeData : Bytes := []
  /-- What the digest was fed with. -/
  fed : Bytes := []
  fullSize : Nat := 0
deriving DecidableEq, Repr

namespace FileWriteDescriptor

/-- The length of an array as it is written, that of a null one being the largest. -/
def length : Option Bytes → Nat
  | none => 0xFFFFFFFF
  | some data => data.length

def writeData (w : FileWriteDescriptor) (data : Option Bytes) : FileWriteDescriptor where
  safeData := w.safeData ++ (beBytes 4 (length data) ++ data.getD [])
  fed := w.fed ++ beBytes 4 (length data) ++ data.getD []
  fullSize := w.fullSize + (4 + (data.getD []).length)

def finish (w : FileWriteDescriptor) : WriteEntry where
  data := w.safeData
  md5 := md5 (w.fed ++ le32 w.fullSize ++ le32 AppVersion ++ TdfMagic)

end FileWriteDescriptor

/-! ## ReadFile -/

structure FileReadDescriptor where
  version : Int
  data : Bytes
deriving DecidableEq, Repr

/-- The checks of one file. -/
def readOne (content : Bytes) : Option FileReadDescriptor :=
  if content.take 4 = TdfMagic then
    match readLe32 (content.drop 4) with
    | none => none
    | some (word, bytes) =>
        let version := i32 word
        let dataSize := i32 (bytes.length - 16)
        if (AppVersion : Int) < version ∨ dataSize < 0 then none
        else
          let data := bytes.take dataSize.toNat
          if md5 (data ++ le32 (u32 dataSize) ++ le32 (u32 version) ++ TdfMagic) =
              (bytes.drop dataSize.toNat).take 16 then
            some { version, data }
          else none
  else none

/-- The order of the read attempts. -/
def toTry (files : Files) : List Postfix :=
  if files.safe.isSome then [.safe]
  else
    match files.simple, files.backup with
    | some toTry0, some toTry1 =>
        if toTry0.lastModified < toTry1.lastModified then [.backup, .simple]
        else [.simple, .backup]
    | some _, none => [.simple]
    | none, _ => [.backup]

def attempt (files : Files) (char : Postfix) : Option FileReadDescriptor :=
  (files.path char).bind fun file => readOne md5 file.content

/-- What is read, and the files after it: where there were two to try, the other one is
removed, if it can be. -/
def ReadFile (files : Files) (removed : Bool) : Option FileReadDescriptor × Files :=
  match toTry files with
  | [first, second] =>
      match attempt md5 files first with
      | some result => (some result, if removed then files.remove second else files)
      | none =>
          match attempt md5 files second with
          | some result => (some result, if removed then files.remove first else files)
          | none => (none, files)
  | [first] => (attempt md5 files first, files)
  | _ => (none, files)

/-- What is read. -/
def contents (files : Files) : Option FileReadDescriptor := (ReadFile md5 files true).1

end

/-! ## Steps on the disk -/

/-- The `QSaveFile`, or the fallback file. -/
inductive Device where
  | save
  | plain
deriving DecidableEq, Repr

inductive Op where
  | open (file : Device)
  | dirExists
  | mkpath
  | write (file : Device) (bytes : Bytes)
  | commit
  | flush
  | close
  | remove (char : Postfix)
  | renameWithOverwrite
deriving DecidableEq, Repr

structure SaveFile where
  content : Bytes := []
  failed : Bool := false
deriving DecidableEq, Repr

structure Disk where
  files : Files
  /-- The `QSaveFile` while it is open. -/
  save : Option SaveFile := none
deriving DecidableEq, Repr

/-- Whether a step is done, how much of a write is, and what time it is. -/
structure Choice where
  ok : Bool := true
  written : Nat := 0
  time : Nat := 0
deriving DecidableEq, Repr

namespace Disk

def perform : (op : Op) → Choice → Disk → Bool × Disk
  | .open .save, c, disk =>
      if c.ok then (true, { disk with save := some {} }) else (false, disk)
  | .open .plain, c, disk =>
      if c.ok then (true, { disk with files.simple := some ⟨[], c.time⟩ }) else (false, disk)
  | .dirExists, c, disk | .mkpath, c, disk | .flush, c, disk | .close, c, disk => (c.ok, disk)
  | .write .save bytes, c, disk =>
      (true, { disk with
        save := disk.save.map fun save =>
          { content := save.content ++ bytes.take c.written
            failed := save.failed || c.written < bytes.length } })
  | .write .plain bytes, c, disk =>
      (true, { disk with
        files.simple := disk.files.simple.map fun file =>
          ⟨file.content ++ bytes.take c.written, c.time⟩ })
  | .commit, c, disk =>
      match disk.save with
      | some ⟨content, false⟩ =>
          if c.ok then (true, { files := { disk.files with safe := some ⟨content, c.time⟩ } })
          else (false, { disk with save := none })
      | _ => (false, { disk with save := none })
  | .remove char, c, disk =>
      if c.ok then (true, { disk with files := disk.files.remove char }) else (false, disk)
  | .renameWithOverwrite, c, disk =>
      match disk.files.simple with
      | some file =>
          if c.ok then
            (true, { disk with files := { disk.files with safe := some file, simple := none } })
          else (false, disk)
      | none => (false, disk)

end Disk

/-! ## WriteManager -/

abbrev Write := Coroutine Op (fun _ => Bool) Empty

namespace WriteManager

open Coroutine

def write (entry : WriteEntry) (file : Device) : Write Unit := do
  let _ ← execute (Op.write file entry.data)
  let _ ← execute (Op.write file entry.md5)

end WriteManager

end Storage

end MessengerClient
