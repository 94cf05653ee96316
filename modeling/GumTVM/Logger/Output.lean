import GumTVM.Logger.Manager
import Mathlib.Data.List.Induction
import Mathlib.Data.List.Infix

/-!
# What reaches the trace file

Calls on one logger while every file it opens can be opened. Abstractly its output
is fresh, opened on a file, or closed for good: closing the stream keeps the file
name, and a logger with a file name opens nothing.
-/

namespace GumTVM

open Foundation

/-! ## Calls -/

/-- A call on the logger. -/
inductive LogCall where
  | setEnableToFile (enable : Bool) (fileName : Text)
  | writeInfo (line : Text)
deriving DecidableEq

namespace LoggerManager

def applyCall (state : LoggerManager × Files) : LogCall → LoggerManager × Files
  | .setEnableToFile enable fileName => state.1.setEnableToFile state.2 enable fileName true
  | .writeInfo line => (state.1, state.1.writeInfo state.2 line)

/-- A new logger and the files after a list of calls on it. -/
def afterCalls (moduleName : Text) (moduleRange : ModuleRange) (files : Files)
    (calls : List LogCall) : LoggerManager × Files :=
  calls.foldl applyCall (create moduleName moduleRange, files)

def filesAfter (moduleName : Text) (moduleRange : ModuleRange) (files : Files)
    (calls : List LogCall) : Files :=
  (afterCalls moduleName moduleRange files calls).2

end LoggerManager

/-- The latest setting of file output, off before the first. -/
def fileEnabled (calls : List LogCall) : Bool :=
  calls.foldl (fun enabled call =>
    match call with
    | .setEnableToFile enable _ => enable
    | .writeInfo _ => enabled) false

/-- The file named by one of the calls that enable output. -/
def IsTraceFile (calls : List LogCall) (path : Text) : Prop :=
  ∃ fileName, .setEnableToFile true fileName ∈ calls ∧ path = LoggerManager.traceDir ++ fileName

/-- Output was enabled and disabled again, whatever follows. -/
def WasDisabled (calls : List LogCall) : Prop :=
  ∃ earlier fileName other, .setEnableToFile true fileName ∈ earlier ∧
    earlier ++ [.setEnableToFile false other] <+: calls

/-! ## The abstract output -/

inductive TraceOutput where
  | fresh
  | opened (path : Text)
  | closed (path : Text)

namespace TraceOutput

def step : TraceOutput → LogCall → TraceOutput
  | fresh, .setEnableToFile true fileName => opened (LoggerManager.traceDir ++ fileName)
  | opened path, .setEnableToFile false _ => closed path
  | output, _ => output

/-- What a call does to the files. -/
def effect (files : Files) : TraceOutput → LogCall → Files
  | fresh, .setEnableToFile true fileName =>
      files.write (LoggerManager.traceDir ++ fileName) []
  | opened path, .writeInfo line => files.write path (files path ++ line)
  | _, _ => files

def after (calls : List LogCall) : TraceOutput := calls.foldl step fresh

/-- What an output tells about the calls that led to it. -/
def Describes (calls : List LogCall) : TraceOutput → Prop
  | fresh => ∀ path, ¬ IsTraceFile calls path
  | opened path => IsTraceFile calls path ∧ fileEnabled calls = true ∧ ¬ WasDisabled calls
  | closed _ => WasDisabled calls

end TraceOutput

section Calls

variable {calls : List LogCall} {call : LogCall}

theorem fileEnabled_snoc_set (enable : Bool) (fileName : Text) :
    fileEnabled (calls ++ [.setEnableToFile enable fileName]) = enable := by
  rw [fileEnabled, List.foldl_append]
  rfl

theorem fileEnabled_snoc_write (line : Text) :
    fileEnabled (calls ++ [.writeInfo line]) = fileEnabled calls := by
  rw [fileEnabled, List.foldl_append]
  rfl

theorem IsTraceFile.mono {later : List LogCall} {path : Text} (hfile : IsTraceFile calls path)
    (hsubset : calls ⊆ later) : IsTraceFile later path := by
  obtain ⟨fileName, hmem, rfl⟩ := hfile
  exact ⟨fileName, hsubset hmem, rfl⟩

/-- Only an enabling call names a new file. -/
theorem not_isTraceFile_snoc (hcalls : ∀ path, ¬ IsTraceFile calls path)
    (hcall : ∀ fileName, call ≠ .setEnableToFile true fileName) (path : Text) :
    ¬ IsTraceFile (calls ++ [call]) path := by
  rintro ⟨fileName, hmem, rfl⟩
  rcases List.mem_append.mp hmem with hprior | hlast
  · exact hcalls _ ⟨fileName, hprior, rfl⟩
  · exact hcall fileName (List.mem_singleton.mp hlast).symm

theorem exists_isTraceFile (henabled : fileEnabled calls = true) :
    ∃ path, IsTraceFile calls path := by
  induction calls using List.reverseRecOn with
  | nil => cases henabled
  | append_singleton calls call ih =>
      cases call with
      | setEnableToFile enable fileName =>
          rw [fileEnabled_snoc_set] at henabled
          subst henabled
          exact ⟨_, fileName, by simp, rfl⟩
      | writeInfo line =>
          rw [fileEnabled_snoc_write] at henabled
          obtain ⟨path, hfile⟩ := ih henabled
          exact ⟨path, hfile.mono (List.subset_append_left _ _)⟩

/-- The call that closes the output comes last or came before. -/
theorem wasDisabled_snoc_iff : WasDisabled (calls ++ [call]) ↔
    WasDisabled calls ∨
      (∃ path, IsTraceFile calls path) ∧ ∃ other, call = .setEnableToFile false other := by
  constructor
  · intro hdisabled
    obtain ⟨earlier, fileName, other, hmem, hprefix⟩ := hdisabled
    rcases List.prefix_concat_iff.mp hprefix with heq | hcalls
    · obtain ⟨rfl, hlast⟩ := List.append_inj' heq rfl
      exact Or.inr ⟨⟨_, fileName, hmem, rfl⟩, other, (List.cons.inj hlast).1.symm⟩
    · exact Or.inl ⟨earlier, fileName, other, hmem, hcalls⟩
  · intro hsplit
    rcases hsplit with hcalls | ⟨⟨path, fileName, hmem, -⟩, other, rfl⟩
    · obtain ⟨earlier, fileName, other, hmem, hprefix⟩ := hcalls
      exact ⟨earlier, fileName, other, hmem, hprefix.trans (List.prefix_append _ _)⟩
    · exact ⟨calls, fileName, other, hmem, List.prefix_rfl⟩

theorem WasDisabled.exists_isTraceFile (hdisabled : WasDisabled calls) :
    ∃ path, IsTraceFile calls path := by
  obtain ⟨earlier, fileName, other, hmem, hprefix⟩ := hdisabled
  exact ⟨_, fileName, hprefix.subset (List.mem_append_left _ hmem), rfl⟩

end Calls

namespace TraceOutput

variable {calls : List LogCall} {output : TraceOutput}

theorem after_snoc (calls : List LogCall) (call : LogCall) :
    after (calls ++ [call]) = (after calls).step call := by
  rw [after, List.foldl_append]
  rfl

/-- Each call keeps the description true. -/
theorem Describes.step (hcalls : output.Describes calls) (call : LogCall) :
    (output.step call).Describes (calls ++ [call]) := by
  have hsubset : calls ⊆ calls ++ [call] := List.subset_append_left _ _
  cases output with
  | fresh =>
      have hdisabled : ¬ WasDisabled calls := fun hdisabled =>
        (hdisabled.exists_isTraceFile).elim hcalls
      cases call with
      | setEnableToFile enable fileName =>
          cases enable with
          | true =>
              refine ⟨⟨fileName, by simp, rfl⟩, fileEnabled_snoc_set true fileName, ?_⟩
              rw [wasDisabled_snoc_iff]
              simp [hdisabled]
          | false => exact not_isTraceFile_snoc hcalls (by simp)
      | writeInfo line => exact not_isTraceFile_snoc hcalls (by simp)
  | opened path =>
      obtain ⟨hfile, henabled, hdisabled⟩ := hcalls
      cases call with
      | setEnableToFile enable fileName =>
          cases enable with
          | true =>
              refine ⟨hfile.mono hsubset, fileEnabled_snoc_set true fileName, ?_⟩
              rw [wasDisabled_snoc_iff]
              simp [hdisabled]
          | false => exact wasDisabled_snoc_iff.mpr (Or.inr ⟨⟨path, hfile⟩, fileName, rfl⟩)
      | writeInfo line =>
          refine ⟨hfile.mono hsubset, (fileEnabled_snoc_write line).trans henabled, ?_⟩
          rw [wasDisabled_snoc_iff]
          simp [hdisabled]
  | closed path =>
      have hnext : WasDisabled (calls ++ [call]) := wasDisabled_snoc_iff.mpr (Or.inl hcalls)
      exact hnext

theorem describes_after (calls : List LogCall) : (after calls).Describes calls := by
  induction calls using List.reverseRecOn with
  | nil =>
      intro path hfile
      obtain ⟨fileName, hmem, -⟩ := hfile
      cases hmem
  | append_singleton calls call ih =>
      rw [after_snoc]
      exact ih.step call

/-! ## The logger has the abstract output -/

/-- The stream and the stored name of a logger with this output. -/
def Holds (logger : LoggerManager) : TraceOutput → Prop
  | fresh => logger.traceOut = none ∧ logger.traceFileName = []
  | opened path => logger.traceOut = some path ∧ logger.traceFileName = path ∧ path ≠ []
  | closed path => logger.traceOut = none ∧ logger.traceFileName = path ∧ path ≠ []

theorem traceDir_append_ne_nil (fileName : Text) : LoggerManager.traceDir ++ fileName ≠ [] :=
  fun hnil => nomatch (List.append_eq_nil_iff.mp hnil).1

/-- Each call does to the logger and the files what it does to the output. -/
theorem Holds.applyCall {logger : LoggerManager} (hlogger : output.Holds logger) (files : Files)
    (call : LogCall) :
    (output.step call).Holds (LoggerManager.applyCall (logger, files) call).1 ∧
      (LoggerManager.applyCall (logger, files) call).2 = output.effect files call := by
  cases call with
  | setEnableToFile enable fileName =>
      unfold LoggerManager.applyCall LoggerManager.setEnableToFile
      cases enable with
      | true =>
          cases output with
          | fresh =>
              simp only [if_true, if_pos hlogger.2]
              exact ⟨⟨rfl, rfl, traceDir_append_ne_nil fileName⟩, rfl⟩
          | opened path =>
              have hname : logger.traceFileName ≠ [] := hlogger.2.1.symm ▸ hlogger.2.2
              simp only [if_true, if_neg hname]
              exact ⟨hlogger, rfl⟩
          | closed path =>
              have hname : logger.traceFileName ≠ [] := hlogger.2.1.symm ▸ hlogger.2.2
              simp only [if_true, if_neg hname]
              exact ⟨hlogger, rfl⟩
      | false =>
          simp only [Bool.false_eq_true, if_false]
          cases output with
          | fresh => exact ⟨⟨rfl, hlogger.2⟩, rfl⟩
          | opened path => exact ⟨⟨rfl, hlogger.2⟩, rfl⟩
          | closed path => exact ⟨⟨rfl, hlogger.2⟩, rfl⟩
  | writeInfo line =>
      unfold LoggerManager.applyCall LoggerManager.writeInfo
      cases output with
      | fresh => exact ⟨hlogger, by simp only [hlogger.1]; rfl⟩
      | opened path => exact ⟨hlogger, by simp only [hlogger.1]; rfl⟩
      | closed path => exact ⟨hlogger, by simp only [hlogger.1]; rfl⟩

end TraceOutput

namespace LoggerManager

variable (moduleName : Text) (moduleRange : ModuleRange) (files : Files)

theorem afterCalls_snoc (calls : List LogCall) (call : LogCall) :
    afterCalls moduleName moduleRange files (calls ++ [call]) =
      applyCall (afterCalls moduleName moduleRange files calls) call := by
  rw [afterCalls, List.foldl_append]
  rfl

theorem holds_afterCalls (calls : List LogCall) :
    (TraceOutput.after calls).Holds (afterCalls moduleName moduleRange files calls).1 := by
  induction calls using List.reverseRecOn with
  | nil => exact ⟨rfl, rfl⟩
  | append_singleton calls call ih =>
      rw [TraceOutput.after_snoc, afterCalls_snoc]
      exact (ih.applyCall _ call).1

/-- The files change as the abstract output says. -/
theorem filesAfter_snoc (calls : List LogCall) (call : LogCall) :
    filesAfter moduleName moduleRange files (calls ++ [call]) =
      (TraceOutput.after calls).effect (filesAfter moduleName moduleRange files calls) call := by
  rw [filesAfter, afterCalls_snoc]
  exact ((holds_afterCalls moduleName moduleRange files calls).applyCall _ call).2

end LoggerManager

/-! ## No record is lost -/

/-- The trace files hold the records written while output is enabled; `history`
gives the files after each list of calls. -/
structure OutputIsComplete (history : List LogCall → Files) (calls : List LogCall) : Prop where
  /-- A record written while output is enabled goes to the end of one trace file. -/
  written : ∀ (before : List LogCall) (line : Text), before ++ [.writeInfo line] <+: calls →
    fileEnabled before = true → ∃ path, IsTraceFile before path ∧
      history (before ++ [.writeInfo line]) =
        (history before).write path (history before path ++ line)
  /-- Any other record goes nowhere. -/
  silent : ∀ (before : List LogCall) (line : Text), before ++ [.writeInfo line] <+: calls →
    fileEnabled before = false → history (before ++ [.writeInfo line]) = history before
  /-- Setting the output writes nothing, and empties only a file without records. -/
  switched : ∀ (before : List LogCall) (enable : Bool) (fileName path : Text),
    before ++ [.setEnableToFile enable fileName] <+: calls →
      history (before ++ [.setEnableToFile enable fileName]) path = history before path ∨
      ¬ IsTraceFile before path ∧
        history (before ++ [.setEnableToFile enable fileName]) path = []
  /-- Later calls keep what a trace file holds. -/
  kept : ∀ (before later : List LogCall) (path : Text), before ++ later <+: calls →
    IsTraceFile before path → history before path <+: history (before ++ later) path

section Complete

variable (moduleName : Text) (moduleRange : ModuleRange) (files : Files)

/-- The line reaches the file that is open, and no other call reaches one. -/
theorem filesAfter_writeInfo (calls : List LogCall) (line : Text) :
    LoggerManager.filesAfter moduleName moduleRange files (calls ++ [.writeInfo line]) =
      match TraceOutput.after calls with
      | .opened path => (LoggerManager.filesAfter moduleName moduleRange files calls).write path
          (LoggerManager.filesAfter moduleName moduleRange files calls path ++ line)
      | _ => LoggerManager.filesAfter moduleName moduleRange files calls := by
  rw [LoggerManager.filesAfter_snoc]
  cases TraceOutput.after calls <;> rfl

theorem filesAfter_writeInfo_of_enabled {calls : List LogCall} (line : Text)
    (henabled : fileEnabled calls = true) (hdisabled : ¬ WasDisabled calls) :
    ∃ path, IsTraceFile calls path ∧
      LoggerManager.filesAfter moduleName moduleRange files (calls ++ [.writeInfo line]) =
        (LoggerManager.filesAfter moduleName moduleRange files calls).write path
          (LoggerManager.filesAfter moduleName moduleRange files calls path ++ line) := by
  have hdescribes := TraceOutput.describes_after calls
  rw [filesAfter_writeInfo]
  cases houtput : TraceOutput.after calls with
  | fresh =>
      rw [houtput] at hdescribes
      exact ((exists_isTraceFile henabled).elim hdescribes).elim
  | opened path =>
      rw [houtput] at hdescribes
      exact ⟨path, hdescribes.1, rfl⟩
  | closed path =>
      rw [houtput] at hdescribes
      exact (hdisabled hdescribes).elim

theorem filesAfter_writeInfo_of_not_opened {calls : List LogCall} (line : Text)
    (hclosed : fileEnabled calls = false ∨ WasDisabled calls) :
    LoggerManager.filesAfter moduleName moduleRange files (calls ++ [.writeInfo line]) =
      LoggerManager.filesAfter moduleName moduleRange files calls := by
  have hdescribes := TraceOutput.describes_after calls
  rw [filesAfter_writeInfo]
  cases houtput : TraceOutput.after calls with
  | fresh => rfl
  | opened path =>
      rw [houtput] at hdescribes
      obtain ⟨-, henabled, hdisabled⟩ := hdescribes
      rcases hclosed with hoff | hwas
      · rw [henabled] at hoff
        cases hoff
      · exact (hdisabled hwas).elim
  | closed path => rfl

theorem filesAfter_setEnableToFile (calls : List LogCall) (enable : Bool) (fileName path : Text) :
    LoggerManager.filesAfter moduleName moduleRange files
        (calls ++ [.setEnableToFile enable fileName]) path =
      LoggerManager.filesAfter moduleName moduleRange files calls path ∨
    ¬ IsTraceFile calls path ∧
      LoggerManager.filesAfter moduleName moduleRange files
        (calls ++ [.setEnableToFile enable fileName]) path = [] := by
  have hdescribes := TraceOutput.describes_after calls
  rw [LoggerManager.filesAfter_snoc]
  cases houtput : TraceOutput.after calls with
  | fresh =>
      rw [houtput] at hdescribes
      cases enable with
      | true =>
          by_cases hpath : path = LoggerManager.traceDir ++ fileName
          · subst hpath
            exact Or.inr ⟨hdescribes _, Files.write_same _ _ _⟩
          · exact Or.inl (Function.update_of_ne hpath _ _)
      | false => exact Or.inl rfl
  | opened other => exact Or.inl rfl
  | closed other => exact Or.inl rfl

/-- One more call keeps what a trace file holds. -/
theorem filesAfter_prefix_snoc {calls : List LogCall} (call : LogCall) {path : Text}
    (hfile : IsTraceFile calls path) :
    LoggerManager.filesAfter moduleName moduleRange files calls path <+:
      LoggerManager.filesAfter moduleName moduleRange files (calls ++ [call]) path := by
  cases call with
  | setEnableToFile enable fileName =>
      rcases filesAfter_setEnableToFile moduleName moduleRange files calls enable fileName path
        with hsame | ⟨hnot, -⟩
      · rw [hsame]
      · exact (hnot hfile).elim
  | writeInfo line =>
      rw [filesAfter_writeInfo]
      cases TraceOutput.after calls with
      | fresh => exact List.prefix_rfl
      | opened other =>
          dsimp only
          by_cases hpath : path = other
          · subst hpath
            rw [Files.write_same]
            exact List.prefix_append _ _
          · have hother := Function.update_of_ne hpath
              (LoggerManager.filesAfter moduleName moduleRange files calls other ++ line)
              (LoggerManager.filesAfter moduleName moduleRange files calls)
            rw [Files.write, hother]
      | closed other => exact List.prefix_rfl

theorem filesAfter_prefix {calls : List LogCall} (later : List LogCall) {path : Text}
    (hfile : IsTraceFile calls path) :
    LoggerManager.filesAfter moduleName moduleRange files calls path <+:
      LoggerManager.filesAfter moduleName moduleRange files (calls ++ later) path := by
  induction later using List.reverseRecOn with
  | nil => rw [List.append_nil]
  | append_singleton later call ih =>
      rw [← List.append_assoc]
      exact ih.trans (filesAfter_prefix_snoc moduleName moduleRange files call
        (hfile.mono (List.subset_append_left _ _)))

/-- Exactly the records written while output is enabled again, after it was
enabled and disabled, are lost. -/
theorem output_complete_iff (calls : List LogCall) :
    OutputIsComplete (LoggerManager.filesAfter moduleName moduleRange files) calls ↔
      ∀ (before : List LogCall) (line : Text), before ++ [.writeInfo line] <+: calls →
        fileEnabled before = true → WasDisabled before → line = [] := by
  constructor
  · intro hcomplete before line hprefix henabled hdisabled
    obtain ⟨path, -, hwritten⟩ := hcomplete.written before line hprefix henabled
    rw [filesAfter_writeInfo_of_not_opened _ _ _ _ (Or.inr hdisabled)] at hwritten
    have hpath := congrFun hwritten path
    rw [Files.write_same] at hpath
    exact List.self_eq_append_right.mp hpath
  · intro hcondition
    refine ⟨?_, ?_, ?_, ?_⟩
    · intro before line hprefix henabled
      by_cases hdisabled : WasDisabled before
      · -- a lost record is empty, and so is in any trace file
        obtain ⟨path, hfile⟩ := exists_isTraceFile henabled
        have hline := hcondition before line hprefix henabled hdisabled
        refine ⟨path, hfile, ?_⟩
        rw [filesAfter_writeInfo_of_not_opened _ _ _ _ (Or.inr hdisabled), hline,
          List.append_nil, Files.write, Function.update_eq_self]
      · exact filesAfter_writeInfo_of_enabled _ _ _ line henabled hdisabled
    · intro before line _ hoff
      exact filesAfter_writeInfo_of_not_opened _ _ _ line (Or.inl hoff)
    · intro before enable fileName path _
      exact filesAfter_setEnableToFile _ _ _ before enable fileName path
    · intro before later path _ hfile
      exact filesAfter_prefix _ _ _ later hfile

/-- A record written after output was disabled and enabled again. -/
theorem reenabled_output_incomplete :
    ¬ ∀ (moduleName : Text) (moduleRange : ModuleRange) (files : Files) (calls : List LogCall),
      OutputIsComplete (LoggerManager.filesAfter moduleName moduleRange files) calls := by
  intro hall
  have hcomplete := hall "libgame.so".toList ⟨0x1000, 0x2000⟩ (fun _ => [])
    [.setEnableToFile true "trace.txt".toList, .setEnableToFile false [],
      .setEnableToFile true "trace.txt".toList, .writeInfo ['x']]
  obtain ⟨path, -, hwritten⟩ := hcomplete.written
    [.setEnableToFile true "trace.txt".toList, .setEnableToFile false [],
      .setEnableToFile true "trace.txt".toList] ['x'] List.prefix_rfl rfl
  have hlost : LoggerManager.filesAfter "libgame.so".toList ⟨0x1000, 0x2000⟩ (fun _ => [])
        [.setEnableToFile true "trace.txt".toList, .setEnableToFile false [],
          .setEnableToFile true "trace.txt".toList, .writeInfo ['x']] =
      LoggerManager.filesAfter "libgame.so".toList ⟨0x1000, 0x2000⟩ (fun _ => [])
        [.setEnableToFile true "trace.txt".toList, .setEnableToFile false [],
          .setEnableToFile true "trace.txt".toList] := rfl
  have hpath := congrFun (hlost.symm.trans hwritten) path
  rw [Files.write_same] at hpath
  cases List.self_eq_append_right.mp hpath

end Complete

end GumTVM
