import Mathlib.Tactic.Common
import Mathlib.Data.List.Infix
import Mathlib.Algebra.Order.Group.Int
import GumTVM.Host.Process

/-!
# Copying the library

The loader script copies the library into the data directory of the package with
`read` and `write`, in turns of at most 1024 bytes. The loop ends at the first
`read` that transfers nothing, and nobody looks at what `write` returns.
-/

namespace GumTVM

open Foundation

/-- Contents of binary files, empty where there is no file. -/
abbrev ByteFiles := Text → List Byte

def ByteFiles.write (files : ByteFiles) (path : Text) (content : List Byte) : ByteFiles :=
  Function.update files path content

/-- Answers of the kernel to the calls of one copy. -/
structure FileHost where
  /-- The descriptor of a file opened for reading, negative when that fails. -/
  openRead : Text → Int
  /-- The descriptor of a file opened for writing, created or truncated. -/
  openWrite : Text → Int
  /-- What the `read` of a turn returns for a size of the buffer, by the number
  of bytes left in the file. -/
  read (turn count left : Nat) : Int
  /-- What the `write` of a turn returns for a number of bytes. -/
  write (turn count : Nat) : Int
  read_le : ∀ turn count left, read turn count left ≤ min count left
  write_le : ∀ turn count, write turn count ≤ count

/-- One turn of the loop: the bytes that were read, and what `write` returned. -/
structure CopyTurn where
  chunk : List Byte
  written : Int
deriving DecidableEq

/-- The bytes of the turn that reach the destination. -/
def CopyTurn.stored (turn : CopyTurn) : List Byte := turn.chunk.take turn.written.toNat

theorem FileHost.read_toNat_le (host : FileHost) (turn count left : Nat) :
    (host.read turn count left).toNat ≤ left := by
  have hle := host.read_le turn count left
  omega

/-- The loop over the bytes that are left. -/
def copyTurns (host : FileHost) (turn : Nat) (left : List Byte) : List CopyTurn :=
  let bytesRead := host.read turn 1024 left.length
  if 0 < bytesRead then
    let chunk := left.take bytesRead.toNat
    ⟨chunk, host.write turn chunk.length⟩ :: copyTurns host (turn + 1) (left.drop bytesRead.toNat)
  else []
termination_by left.length
decreasing_by
  have hle := host.read_toNat_le turn 1024 left.length
  rw [List.length_drop]
  omega

/-- The messages on the console and the files afterwards. -/
def copyFile (host : FileHost) (files : ByteFiles) (srcPath destPath : Text) :
    List Text × ByteFiles :=
  let srcFd := host.openRead srcPath
  if srcFd < 0 then (["[X] Failed to open source file: ".toList ++ srcPath], files)
  else
    let openedSource := "[✔] Opened source file, fd = ".toList ++ (toString srcFd).toList
    let destFd := host.openWrite destPath
    if destFd < 0 then
      ([openedSource, "[X] Failed to open destination file: ".toList ++ destPath], files)
    else
      let openedDest := "[✔] Opened destination file, fd = ".toList ++ (toString destFd).toList
      -- `O_TRUNC`, which also empties the source if the paths are the same
      let files := files.write destPath []
      ([openedSource, openedDest, "[✔] File copied successfully: ".toList ++ destPath],
        files.write destPath ((copyTurns host 0 (files srcPath)).flatMap CopyTurn.stored))

/-! ## Turns -/

variable {host : FileHost}

theorem copyTurns_of_read {turn : Nat} {left : List Byte}
    (hread : 0 < host.read turn 1024 left.length) :
    copyTurns host turn left =
      ⟨left.take (host.read turn 1024 left.length).toNat,
        host.write turn (host.read turn 1024 left.length).toNat⟩ ::
        copyTurns host (turn + 1) (left.drop (host.read turn 1024 left.length).toNat) := by
  rw [copyTurns]
  dsimp only
  rw [if_pos hread, List.length_take,
    Nat.min_eq_left (host.read_toNat_le turn 1024 left.length)]

theorem copyTurns_of_end {turn : Nat} {left : List Byte}
    (hread : ¬ 0 < host.read turn 1024 left.length) : copyTurns host turn left = [] := by
  rw [copyTurns]
  exact if_neg hread

/-- The turns read the file from its start, without gaps. -/
theorem copyTurns_chunks (turn : Nat) (left : List Byte) :
    (copyTurns host turn left).flatMap CopyTurn.chunk <+: left := by
  induction turn, left using copyTurns.induct host with
  | case1 turn left bytesRead hread ih =>
      rw [copyTurns_of_read hread, List.flatMap_cons]
      obtain ⟨rest, hrest⟩ := ih
      refine ⟨rest, ?_⟩
      rw [List.append_assoc, hrest]
      exact List.take_append_drop _ left
  | case2 turn left bytesRead hread =>
      rw [copyTurns_of_end hread]
      exact List.nil_prefix

/-- Every turn reads something, and `write` takes at most that. -/
theorem copyTurns_mem {turn : Nat} {left : List Byte} {entry : CopyTurn}
    (hentry : entry ∈ copyTurns host turn left) :
    entry.chunk ≠ [] ∧ entry.chunk.length ≤ 1024 ∧ entry.written ≤ entry.chunk.length := by
  induction turn, left using copyTurns.induct host with
  | case1 turn left bytesRead hread ih =>
      rw [copyTurns_of_read hread, List.mem_cons] at hentry
      rcases hentry with rfl | hlater
      · have hle := host.read_le turn 1024 left.length
        have hlength := List.length_take_of_le (host.read_toNat_le turn 1024 left.length)
        have hwrite := host.write_le turn (host.read turn 1024 left.length).toNat
        refine ⟨?_, ?_, ?_⟩
        · intro hnil
          dsimp only at hnil
          rw [hnil, List.length_nil] at hlength
          omega
        · dsimp only
          omega
        · dsimp only
          omega
      · exact ih hlater
  | case2 turn left bytesRead hread =>
      rw [copyTurns_of_end hread] at hentry
      cases hentry

theorem stored_sublist (turns : List CopyTurn) :
    List.Sublist (turns.flatMap CopyTurn.stored) (turns.flatMap CopyTurn.chunk) := by
  induction turns with
  | nil => exact List.Sublist.refl _
  | cons turn rest ih => exact (List.take_sublist _ _).append ih

/-- Nothing is lost only where every `write` took all of its turn. -/
theorem stored_eq_chunks_iff {turns : List CopyTurn}
    (hturns : ∀ turn ∈ turns, turn.chunk ≠ [] ∧ turn.written ≤ turn.chunk.length) :
    turns.flatMap CopyTurn.stored = turns.flatMap CopyTurn.chunk ↔
      ∀ turn ∈ turns, turn.written = turn.chunk.length := by
  induction turns with
  | nil => simp
  | cons turn rest ih =>
      obtain ⟨hchunk, hwritten⟩ := hturns turn List.mem_cons_self
      have hlater := ih fun other hother => hturns other (List.mem_cons_of_mem _ hother)
      rw [List.forall_mem_cons, ← hlater, List.flatMap_cons, List.flatMap_cons]
      constructor
      · intro hequal
        have hlengths := congrArg List.length hequal
        have hshort := (stored_sublist rest).length_le
        have hpositive := List.length_pos_of_ne_nil hchunk
        simp only [List.length_append, CopyTurn.stored, List.length_take] at hlengths
        have hall : turn.written = turn.chunk.length := by omega
        refine ⟨hall, ?_⟩
        have hstored : turn.stored = turn.chunk := by
          unfold CopyTurn.stored
          rw [hall, Int.toNat_natCast, List.take_length]
        rw [hstored] at hequal
        exact List.append_cancel_left hequal
      · rintro ⟨hall, hrest⟩
        rw [hrest]
        unfold CopyTurn.stored
        rw [hall, Int.toNat_natCast, List.take_length]

/-! ## The copy -/

/-- The reads got to the end of the file, and every write took what was read. -/
def CopyComplete (host : FileHost) (content : List Byte) : Prop :=
  ((copyTurns host 0 content).flatMap CopyTurn.chunk).length = content.length ∧
    ∀ turn ∈ copyTurns host 0 content, turn.written = turn.chunk.length

theorem copied_eq_iff (content : List Byte) :
    (copyTurns host 0 content).flatMap CopyTurn.stored = content ↔
      CopyComplete host content := by
  have hchunks := @copyTurns_chunks host 0 content
  have hturns : ∀ turn ∈ copyTurns host 0 content,
      turn.chunk ≠ [] ∧ turn.written ≤ turn.chunk.length := fun turn hturn =>
    ⟨(copyTurns_mem hturn).1, (copyTurns_mem hturn).2.2⟩
  unfold CopyComplete
  rw [← stored_eq_chunks_iff hturns]
  constructor
  · intro hequal
    have hstored := (stored_sublist (copyTurns host 0 content)).length_le
    have hlength := Nat.le_antisymm hchunks.length_le
      ((congrArg List.length hequal).symm.trans_le hstored)
    exact ⟨hlength, hequal.trans (hchunks.eq_of_length hlength).symm⟩
  · rintro ⟨hlength, hstored⟩
    rw [hstored]
    exact hchunks.eq_of_length hlength

theorem copyFile_files (files : ByteFiles) {srcPath destPath : Text}
    (hpaths : srcPath ≠ destPath) (hsource : 0 ≤ host.openRead srcPath)
    (hdest : 0 ≤ host.openWrite destPath) :
    (copyFile host files srcPath destPath).2 = Function.update files destPath
      ((copyTurns host 0 (files srcPath)).flatMap CopyTurn.stored) := by
  have hsourceSame : (files.write destPath []) srcPath = files srcPath :=
    Function.update_of_ne hpaths _ _
  unfold copyFile
  simp only [Int.not_lt.mpr hsource, Int.not_lt.mpr hdest, if_false, hsourceSame]
  exact Function.update_idem _ _ _

/-- If both files open, only the destination changes, and success is reported.
The copy has bytes of the source in their order, and is the source exactly when
every byte was read and every write was whole. -/
theorem copyFile_copied (files : ByteFiles) {srcPath destPath : Text}
    (hpaths : srcPath ≠ destPath) (hsource : 0 ≤ host.openRead srcPath)
    (hdest : 0 ≤ host.openWrite destPath) :
    (copyFile host files srcPath destPath).1.getLast? =
        some ("[✔] File copied successfully: ".toList ++ destPath) ∧
      (∀ path, path ≠ destPath → (copyFile host files srcPath destPath).2 path = files path) ∧
      List.Sublist ((copyFile host files srcPath destPath).2 destPath) (files srcPath) ∧
      ((copyFile host files srcPath destPath).2 destPath = files srcPath ↔
        CopyComplete host (files srcPath)) := by
  have hresult := copyFile_files files hpaths hsource hdest
  have hcontent : (copyFile host files srcPath destPath).2 destPath =
      (copyTurns host 0 (files srcPath)).flatMap CopyTurn.stored := by
    rw [hresult]
    exact Function.update_self _ _ _
  refine ⟨?_, ?_, ?_, ?_⟩
  · unfold copyFile
    simp [Int.not_lt.mpr hsource, Int.not_lt.mpr hdest]
  · intro path hpath
    rw [hresult]
    exact Function.update_of_ne hpath _ _
  · rw [hcontent]
    exact (stored_sublist _).trans (copyTurns_chunks 0 _).sublist
  · rw [hcontent]
    exact copied_eq_iff _

/-- A kernel that reads two bytes at most and takes one byte of the second write. -/
def shortHost : FileHost where
  openRead _ := 3
  openWrite _ := 4
  read _ count left := min (min count left) 2
  write turn count := if turn = 1 then min count 1 else count
  read_le turn count left := by omega
  write_le turn count := by split <;> omega

/-- The fourth of six bytes is lost. -/
theorem copyFile_copied_short :
    ∃ files : ByteFiles, files "src".toList = [1, 2, 3, 4, 5, 6] ∧
      (copyFile shortHost files "src".toList "dest".toList).2 "dest".toList = [1, 2, 3, 5, 6] ∧
      ¬ CopyComplete shortHost [1, 2, 3, 4, 5, 6] := by
  let files : ByteFiles := ByteFiles.write (fun _ => []) "src".toList [1, 2, 3, 4, 5, 6]
  have hsource : files "src".toList = [1, 2, 3, 4, 5, 6] := Function.update_self _ _ _
  have hcopied : (copyFile shortHost files "src".toList "dest".toList).2 "dest".toList =
      [1, 2, 3, 5, 6] := by
    have hturns : copyTurns shortHost 0 [1, 2, 3, 4, 5, 6] =
        [⟨[1, 2], 2⟩, ⟨[3, 4], 1⟩, ⟨[5, 6], 2⟩] := by
      simp [copyTurns, shortHost]
    rw [copyFile_files files (by decide) (by decide) (by decide), hsource, hturns]
    exact Function.update_self _ _ _
  obtain ⟨-, -, -, hiff⟩ := @copyFile_copied shortHost files "src".toList "dest".toList
    (by decide) (by decide) (by decide)
  refine ⟨files, hsource, hcopied, ?_⟩
  rw [hcopied, hsource] at hiff
  exact fun hcomplete => absurd (hiff.mpr hcomplete) (by decide)

end GumTVM
