import MessengerClient.Storage.FileUtilities

/-!
# MessengerClient.Storage.WriteNow

What is read after a write that may be stopped at any step, and any step of which may fail:
what was read before, or what was to be written, as long as the fallback does not give up a
file that is read for one that was not written to its end.
-/

namespace MessengerClient

namespace Storage

variable {md5 : Bytes → Bytes}

/-! ## A file that is written to its end -/

namespace FileWriteDescriptor

/-- The descriptor after some arrays are written. -/
def written (arrays : List (Option Bytes)) : FileWriteDescriptor := arrays.foldl writeData {}

/-- The digest is fed with what is written, and counts it. -/
theorem fed_foldl (arrays : List (Option Bytes)) {w : FileWriteDescriptor}
    (hfed : w.fed = w.safeData) (hsize : w.fullSize = w.safeData.length) :
    (arrays.foldl writeData w).fed = (arrays.foldl writeData w).safeData ∧
      (arrays.foldl writeData w).fullSize = (arrays.foldl writeData w).safeData.length := by
  induction arrays generalizing w with
  | nil => exact ⟨hfed, hsize⟩
  | cons data arrays ih =>
      refine ih ?_ ?_
      · simp [writeData, hfed]
      · simp [writeData, hsize]

theorem finish_written (arrays : List (Option Bytes)) :
    (written arrays).finish md5 =
      { data := (written arrays).safeData
        md5 := md5 ((written arrays).safeData ++ le32 (written arrays).safeData.length ++
          le32 AppVersion ++ TdfMagic) } := by
  obtain ⟨hfed, hsize⟩ := fed_foldl arrays (w := {}) rfl rfl
  rw [finish, written, hfed, hsize]

end FileWriteDescriptor

/-- The whole file of an entry. -/
def WriteEntry.full (entry : WriteEntry) : Bytes :=
  TdfMagic ++ le32 AppVersion ++ entry.data ++ entry.md5

/-- **What is written to its end is read back.** -/
theorem readOne_full (hmd5 : ∀ bytes, (md5 bytes).length = 16) (arrays : List (Option Bytes))
    (hsize : (FileWriteDescriptor.written arrays).safeData.length < 2 ^ 31) :
    readOne md5 ((FileWriteDescriptor.written arrays).finish md5).full =
      some ⟨AppVersion, (FileWriteDescriptor.written arrays).safeData⟩ := by
  rw [FileWriteDescriptor.finish_written]
  generalize (FileWriteDescriptor.written arrays).safeData = data at hsize
  generalize hsign : md5 (data ++ le32 data.length ++ le32 AppVersion ++ TdfMagic) = sign
  have hsignSize : sign.length = 16 := hsign ▸ hmd5 _
  have hmagic : (WriteEntry.full ⟨data, sign⟩).take 4 = TdfMagic := by
    simp [WriteEntry.full, TdfMagic]
  have hrest : (WriteEntry.full ⟨data, sign⟩).drop 4 = le32 AppVersion ++ (data ++ sign) := by
    simp [WriteEntry.full, TdfMagic]
  have hversion : i32 (AppVersion : Nat) = AppVersion := i32_of_lt (by decide)
  have hdataSize : i32 ((data ++ sign).length - 16) = data.length := by
    have hlength : ((data ++ sign).length : Int) - 16 = data.length := by
      rw [List.length_append, hsignSize]
      omega
    rw [hlength, i32_of_lt hsize]
  rw [readOne, if_pos hmagic, hrest, readLe32_le32 (by decide)]
  simp only [hversion, hdataSize]
  have hdata : (data ++ sign).take data.length = data := List.take_left
  have htail : ((data ++ sign).drop data.length).take 16 = sign := by
    rw [List.drop_left, ← hsignSize, List.take_length]
  rw [if_neg (by omega), Int.toNat_natCast, hdata, htail, u32_of_lt (by omega),
    u32_of_lt (by decide), if_pos hsign]

/-! ## What is read of some files -/

variable {files files' : Files} {file : File}

theorem attempt_of_path {p : Postfix} (h : files.path p = some file) :
    attempt md5 files p = readOne md5 file.content := by
  rw [attempt, h, Option.bind_some]

theorem contents_of_safe (h : files.safe = some file) :
    contents md5 files = readOne md5 file.content := by
  simp [contents, ReadFile, toTry, h, attempt, Files.path]

/-- The backup is newer than the simple file. -/
def BackupFirst (files : Files) : Prop :=
  ∃ toTry0 toTry1, files.simple = some toTry0 ∧ files.backup = some toTry1 ∧
    toTry0.lastModified < toTry1.lastModified

/-- Where there is no safe file, one of the others is read after the other. -/
theorem contents_of_legacy (h : files.safe = none) :
    BackupFirst files ∧ contents md5 files =
        (attempt md5 files .backup).or (attempt md5 files .simple) ∨
      ¬ BackupFirst files ∧ contents md5 files =
        (attempt md5 files .simple).or (attempt md5 files .backup) := by
  obtain ⟨safe, simple, backup⟩ := files
  obtain rfl : safe = none := h
  cases simple with
  | none =>
      refine .inr ⟨?_, ?_⟩
      · rintro ⟨_, _, h, -⟩
        cases h
      · simp [contents, ReadFile, toTry, attempt, Files.path]
  | some toTry0 =>
      cases backup with
      | none =>
          refine .inr ⟨?_, ?_⟩
          · rintro ⟨_, _, -, h, -⟩
            cases h
          · simp [contents, ReadFile, toTry, attempt, Files.path]
      | some toTry1 =>
          by_cases hnewer : toTry0.lastModified < toTry1.lastModified
          · refine .inl ⟨⟨toTry0, toTry1, rfl, rfl, hnewer⟩, ?_⟩
            simp only [contents, ReadFile, toTry, if_pos hnewer, Option.isSome_none,
              Bool.false_eq_true, if_false]
            cases attempt md5 ⟨none, some toTry0, some toTry1⟩ .backup <;>
              cases attempt md5 ⟨none, some toTry0, some toTry1⟩ .simple <;> rfl
          · refine .inr ⟨?_, ?_⟩
            · rintro ⟨_, _, h0, h1, h⟩
              cases h0
              cases h1
              exact hnewer h
            · simp only [contents, ReadFile, toTry, if_neg hnewer, Option.isSome_none,
                Bool.false_eq_true, if_false]
              cases attempt md5 ⟨none, some toTry0, some toTry1⟩ .simple <;>
                cases attempt md5 ⟨none, some toTry0, some toTry1⟩ .backup <;> rfl

/-- A simple file that is not read leaves the backup. -/
theorem contents_of_simple_none (h : files.safe = none) (hsimple : attempt md5 files .simple = none) :
    contents md5 files = attempt md5 files .backup := by
  rcases contents_of_legacy h with ⟨-, heq⟩ | ⟨-, heq⟩
  · rw [heq, hsimple, Option.or_none]
  · rw [heq, hsimple, Option.none_or]

theorem contents_of_both {result : FileReadDescriptor} (h : files.safe = none)
    (hsimple : attempt md5 files .simple = some result) :
    contents md5 files = some result ∨ contents md5 files = attempt md5 files .backup := by
  rcases contents_of_legacy h with ⟨-, heq⟩ | ⟨-, heq⟩
  · cases hbackup : attempt md5 files .backup with
    | none => exact .inl (by rw [heq, hbackup, hsimple, Option.none_or])
    | some other => exact .inr (by rw [heq, hbackup, Option.some_or])
  · exact .inl (by rw [heq, hsimple, Option.some_or])

/-- Reading removes only a file that is not read, so it is read again. -/
theorem contents_after (files : Files) (removed : Bool) :
    contents md5 (ReadFile md5 files removed).2 = contents md5 files := by
  cases removed with
  | false =>
      unfold ReadFile
      split
      · split
        · rfl
        · split <;> rfl
      · rfl
      · rfl
  | true =>
      obtain ⟨safe, simple, backup⟩ := files
      cases safe with
      | some file => simp [ReadFile, toTry]
      | none =>
          cases simple with
          | none => simp [ReadFile, toTry]
          | some toTry0 =>
              cases backup with
              | none => simp [ReadFile, toTry]
              | some toTry1 =>
                  by_cases hnewer : toTry0.lastModified < toTry1.lastModified <;>
                    cases h0 : readOne md5 toTry0.content <;>
                    cases h1 : readOne md5 toTry1.content <;>
                    simp [contents, ReadFile, toTry, attempt, Files.path, Files.remove, hnewer, h0,
                      h1]

/-! ## Cut files -/

/-- A front of each of some chunks, one after the other. -/
def Fronts : List Bytes → Bytes → Prop
  | [], content => content = []
  | chunk :: chunks, content =>
      ∃ n rest, Fronts chunks rest ∧ content = chunk.take n ++ rest

theorem fronts_nil (chunks : List Bytes) : Fronts chunks [] := by
  induction chunks with
  | nil => rfl
  | cons chunk chunks ih => exact ⟨0, [], ih, by simp⟩

theorem Fronts.append {chunks : List Bytes} {content : Bytes} (h : Fronts chunks content)
    (more : List Bytes) : Fronts (chunks ++ more) content := by
  induction chunks generalizing content with
  | nil =>
      obtain rfl : content = [] := h
      exact fronts_nil more
  | cons chunk chunks ih =>
      obtain ⟨n, rest, hrest, rfl⟩ := h
      exact ⟨n, rest, ih hrest, rfl⟩

theorem Fronts.write {chunks : List Bytes} {content : Bytes} (h : Fronts chunks content)
    (chunk : Bytes) (n : Nat) : Fronts (chunks ++ [chunk]) (content ++ chunk.take n) := by
  induction chunks generalizing content with
  | nil =>
      obtain rfl : content = [] := h
      exact ⟨n, [], rfl, by simp⟩
  | cons first chunks ih =>
      obtain ⟨m, rest, hrest, rfl⟩ := h
      exact ⟨m, _, ih hrest, by rw [List.append_assoc]⟩

namespace WriteEntry

variable (entry : WriteEntry)

def chunks : List Bytes := [TdfMagic, le32 AppVersion, entry.data, entry.md5]

/-- No file that is cut passes for a whole one. -/
def Sealed (md5 : Bytes → Bytes) : Prop :=
  ∀ content, Fronts entry.chunks content → content ≠ entry.full → readOne md5 content = none

/-- The simple file is written to its end. -/
def Complete (files : Files) : Prop := ∃ file, files.simple = some file ∧ file.content = entry.full

end WriteEntry

/-! ## A careful run -/

/-- What was read before is read, or what is written. -/
def Either (md5 : Bytes → Bytes) (before : Files) (new : FileReadDescriptor) (d : Disk) : Prop :=
  contents md5 d.files = contents md5 before ∨ contents md5 d.files = some new

variable {entry : WriteEntry} {before : Files} {new : FileReadDescriptor} {d : Disk}
  {chunks : List Bytes}

/-- The fallback is writing the simple file, and no other file is changed. -/
structure Writing (md5 : Bytes → Bytes) (before : Files) (chunks : List Bytes) (d : Disk) :
    Prop where
  safe : d.files.safe = before.safe
  backup : d.files.backup = before.backup
  fronts : ∃ file, d.files.simple = some file ∧ Fronts chunks file.content
  /-- Where there is no safe file, the backup is what is read. -/
  legacy : before.safe = none → attempt md5 before .backup = contents md5 before

theorem attempt_congr {p : Postfix} (h : files.path p = files'.path p) :
    attempt md5 files p = attempt md5 files' p := by
  rw [attempt, attempt, h]

/-- A file of fronts is complete, or nothing is read of it. -/
theorem attempt_simple (hsealed : entry.Sealed md5) (hfile : files.simple = some file)
    (hfronts : Fronts entry.chunks file.content) :
    entry.Complete files ∨ attempt md5 files .simple = none := by
  by_cases hfull : file.content = entry.full
  · exact .inl ⟨file, hfile, hfull⟩
  · refine .inr ?_
    rw [attempt_of_path (p := .simple) hfile]
    exact hsealed _ hfronts hfull

theorem attempt_of_complete (hread : readOne md5 entry.full = some new)
    (h : entry.Complete files) : attempt md5 files .simple = some new := by
  obtain ⟨file, hfile, hfull⟩ := h
  rw [attempt_of_path (p := .simple) hfile, hfull, hread]

/-- While the simple file is written, the same is read, or the new contents are. -/
theorem Writing.either (h : Writing md5 before entry.chunks d) (hsealed : entry.Sealed md5)
    (hread : readOne md5 entry.full = some new) : Either md5 before new d := by
  obtain ⟨file, hfile, hfronts⟩ := h.fronts
  cases hsafe : before.safe with
  | some safe =>
      refine .inl ?_
      rw [contents_of_safe (h.safe.trans hsafe), contents_of_safe hsafe]
  | none =>
      have hnone : d.files.safe = none := h.safe.trans hsafe
      have hbackup : attempt md5 d.files .backup = contents md5 before := by
        rw [attempt_congr (p := .backup) h.backup]
        exact h.legacy hsafe
      cases attempt_simple hsealed hfile hfronts with
      | inl hcomplete =>
          refine (contents_of_both hnone (attempt_of_complete hread hcomplete)).symm.imp_left ?_
          exact fun heq => heq.trans hbackup
      | inr hcut => exact .inl ((contents_of_simple_none hnone hcut).trans hbackup)

/-- The simple file is written, and what is read is as it should be. -/
structure Written (md5 : Bytes → Bytes) (entry : WriteEntry) (before : Files)
    (new : FileReadDescriptor) (d : Disk) : Prop where
  either : Either md5 before new d
  fronts : ∃ file, d.files.simple = some file ∧ Fronts entry.chunks file.content

theorem Writing.written (h : Writing md5 before entry.chunks d) (hsealed : entry.Sealed md5)
    (hread : readOne md5 entry.full = some new) : Written md5 entry before new d :=
  ⟨h.either hsealed hread, h.fronts⟩

namespace WriteManager

open Coroutine Disk

/-- The `QSaveFile` is open, and nothing else has changed. -/
structure Saving (before : Files) (chunks : List Bytes) (d : Disk) : Prop where
  files : d.files = before
  save : ∃ save, d.save = some save ∧ (save.failed = false → save.content = chunks.flatten)

theorem either_of_files (h : d.files = before) : Either md5 before new d :=
  .inl (by rw [h])

/-- A file is open, and some chunks are written to it as far as the disk let them. -/
def Opened (md5 : Bytes → Bytes) (before : Files) (file : Device) (chunks : List Bytes)
    (d : Disk) : Prop :=
  match file with
  | .save => Saving before chunks d
  | .plain => Writing md5 before chunks d

theorem Opened.either {file : Device} {more : List Bytes} (h : Opened md5 before file chunks d)
    (hchunks : entry.chunks = chunks ++ more) (hsealed : entry.Sealed md5)
    (hread : readOne md5 entry.full = some new) : Either md5 before new d := by
  cases file with
  | save => exact either_of_files h.files
  | plain =>
      obtain ⟨file, hfile, hfronts⟩ := h.fronts
      have hall : Writing md5 before entry.chunks d :=
        ⟨h.safe, h.backup, ⟨file, hfile, hchunks ▸ hfronts.append more⟩, h.legacy⟩
      exact hall.either hsealed hread

end WriteManager

/-! ## All or nothing -/

theorem Fronts.length_le {chunks : List Bytes} {content : Bytes} (h : Fronts chunks content) :
    content.length < chunks.flatten.length ∨ content = chunks.flatten := by
  induction chunks generalizing content with
  | nil => exact .inr h
  | cons chunk chunks ih =>
      obtain ⟨n, rest, hrest, rfl⟩ := h
      have htake := List.length_take_le' n chunk
      simp only [List.length_append, List.flatten_cons]
      rcases ih hrest with hshort | rfl
      · exact .inl (by omega)
      · by_cases hn : chunk.length ≤ n
        · exact .inr (by rw [List.take_of_length_le hn])
        · rw [List.length_take]
          exact .inl (by omega)

/-- A digest for the two runs below. -/
def zeros (_ : Bytes) : Bytes := List.replicate 16 0

end Storage

end MessengerClient
