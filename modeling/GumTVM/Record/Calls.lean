import GumTVM.Tracer.CallbackLaws

/-!
# Call reporting over a whole run

A call out of the module is reported where it happens, a call through the PLT
where the stub branches on. One flag carries the latter from record to record.
The code is compared with a machine that follows calls over the half-open PLT;
they part at the offset just past the PLT and on a module name without a slash.
-/

namespace GumTVM

open Foundation

/-! ## Following calls -/

/-- `BL` and `BLR` call, `BR` branches. -/
inductive TransferKind where
  | call
  | branch
deriving DecidableEq

structure Transfer where
  kind : TransferKind
  target : BitVec 64

/-- The transfer an instruction performs, if it is one of the three. -/
def transferOf (input : CallbackInput) : Option Transfer :=
  match input.info.insnCopy.id, input.info.operand0 with
  | .bl, .imm imm => some ⟨.call, imm⟩
  | .blr, .reg reg => some ⟨.call, (getRegisterValue reg input.ctx).getD 0⟩
  | .br, .reg reg => some ⟨.branch, (getRegisterValue reg input.ctx).getD 0⟩
  | _, _ => none

/-- The base of the main module, and the offsets where its PLT starts and ends. -/
structure PltLayout where
  base : BitVec 64
  first : BitVec 64
  last : BitVec 64

namespace PltLayout

variable (plt : PltLayout)

def Contains (addr : BitVec 64) : Prop :=
  plt.first ≤ addr - plt.base ∧ addr - plt.base < plt.last

instance (addr : BitVec 64) : Decidable (plt.Contains addr) :=
  inferInstanceAs (Decidable (_ ∧ _))

/-- The first address past the PLT. -/
def AtEnd (addr : BitVec 64) : Prop := plt.first ≤ plt.last ∧ addr - plt.base = plt.last

instance (addr : BitVec 64) : Decidable (plt.AtEnd addr) :=
  inferInstanceAs (Decidable (_ ∧ _))

end PltLayout

def InstructionTracerManager.pltLayout (self : InstructionTracerManager) : PltLayout :=
  ⟨self.moduleRange.base, self.pltRange.1, self.pltRange.2⟩

/-- The part of a path after its last slash, all of it if there is none. -/
def lastComponent (path : Text) : Text := (path.reverse.takeWhile (· ≠ '/')).reverse

/-- The line of a call to `target`. -/
def expectedLine (proc : Process) (target : BitVec 64) : Text :=
  match proc.xdlAddr target with
  | none => []
  | some xdlInfo =>
      "call addr: ".toList ++ hex target.toNat ++ " [".toList ++
        lastComponent xdlInfo.dliFname ++ "!".toList ++ symName proc target xdlInfo ++ "]".toList

/-- A transfer that is a call, or a branch of a stub that a call entered. -/
def tracked (pending : Bool) (input : CallbackInput) : Option Transfer :=
  (transferOf input).filter fun transfer => decide (transfer.kind = .call) || pending

/-- The line an instruction should have, and whether a call waits in the PLT
afterwards. -/
def expectStep (plt : PltLayout) (pending : Bool) (input : CallbackInput) : Text × Bool :=
  match tracked pending input with
  | none => ([], pending)
  | some transfer =>
      if plt.Contains transfer.target then ([], true)
      else (expectedLine input.proc transfer.target, decide (transfer.kind = .call) && pending)

/-- What a run should show, starting from a given flag. -/
def expected (plt : PltLayout) : Bool → List CallbackInput → List (Text × Bool)
  | _, [] => []
  | pending, input :: rest =>
      expectStep plt pending input :: expected plt (expectStep plt pending input).2 rest

/-- The tracked transfers of a run, with the instructions that perform them. -/
def trackedTransfers (plt : PltLayout) : Bool → List CallbackInput →
    List (CallbackInput × Transfer)
  | _, [] => []
  | pending, input :: rest =>
      (tracked pending input).toList.map (fun transfer => (input, transfer)) ++
        trackedTransfers plt (expectStep plt pending input).2 rest

/-! ## What the code does -/

/-- The code treats the transfer as the half-open PLT asks, and finds a module
name to print. -/
def Regular (plt : PltLayout) (input : CallbackInput) (transfer : Transfer) : Prop :=
  ¬ plt.AtEnd transfer.target ∧
    (¬ plt.Contains transfer.target →
      ∀ xdlInfo, input.proc.xdlAddr transfer.target = some xdlInfo → '/' ∈ xdlInfo.dliFname)

/-- `xdl_addr` knows the target of every transfer, and no target is zero. -/
def Resolved (input : CallbackInput) : Prop :=
  ∀ transfer, transferOf input = some transfer →
    transfer.target ≠ 0 ∧ ∃ xdlInfo, input.proc.xdlAddr transfer.target = some xdlInfo

section

variable {cs : Capstone} {self : InstructionTracerManager} {input : CallbackInput}
variable {transfer : Transfer}

theorem inPltRange_iff (self : InstructionTracerManager) (addr : BitVec 64) :
    inPltRange self addr = true ↔ self.pltLayout.Contains addr ∨ self.pltLayout.AtEnd addr := by
  simp only [inPltRange, Bool.and_eq_true, decide_eq_true_eq, PltLayout.Contains,
    PltLayout.AtEnd, InstructionTracerManager.pltLayout]
  bv_omega

theorem jmpAddr_eq (self : InstructionTracerManager) (input : CallbackInput) :
    jmpAddr self input.ctx input.info =
      match transferOf input with
      | none => (self, 0)
      | some ⟨.call, target⟩ => (self, target)
      | some ⟨.branch, target⟩ =>
          if self.isPltJmp then ({ self with isPltJmp := false }, target) else (self, 0) := by
  unfold jmpAddr transferOf
  generalize input.info.insnCopy.id = id
  generalize input.info.operand0 = operand
  cases id with
  | bl | blr | br => cases operand <;> rfl
  | _ => rfl

theorem callStep_of_untracked (huntracked : tracked self.isPltJmp input = none) :
    callStep input.proc self input.ctx input.info = some (self, []) := by
  have haddr : jmpAddr self input.ctx input.info = (self, 0) := by
    rw [jmpAddr_eq]
    unfold tracked at huntracked
    cases htransfer : transferOf input with
    | none => rfl
    | some transfer =>
        obtain ⟨kind, target⟩ := transfer
        cases kind with
        | call => simp [htransfer] at huntracked
        | branch =>
            have hflag : self.isPltJmp = false := by simpa [htransfer] using huntracked
            simp [hflag]
  simp [callStep, haddr]

theorem callStep_of_tracked (htracked : tracked self.isPltJmp input = some transfer)
    (htarget : transfer.target ≠ 0) :
    callStep input.proc self input.ctx input.info =
      if inPltRange self transfer.target then some ({ self with isPltJmp := true }, [])
      else (callInfo input.proc transfer.target).map fun text =>
        ({ self with isPltJmp := decide (transfer.kind = .call) && self.isPltJmp }, text) := by
  obtain ⟨htransfer, hkind⟩ := Option.filter_eq_some_iff.mp htracked
  have haddr : jmpAddr self input.ctx input.info =
      ({ self with isPltJmp := decide (transfer.kind = .call) && self.isPltJmp },
        transfer.target) := by
    rw [jmpAddr_eq, htransfer]
    obtain ⟨kind, target⟩ := transfer
    cases kind with
    | call => rfl
    | branch =>
        have hflag : self.isPltJmp = true := by simpa using hkind
        simp [hflag]
  unfold callStep
  rw [haddr]
  dsimp only
  rw [if_neg htarget]
  rfl

theorem callInfo_of_resolved {proc : Process} {addr : BitVec 64} {xdlInfo : XdlInfo}
    (hinfo : proc.xdlAddr addr = some xdlInfo) :
    callInfo proc addr =
      if '/' ∈ xdlInfo.dliFname then some (expectedLine proc addr) else none := by
  simp only [callInfo, expectedLine, afterLastSlash, hinfo]
  split <;> rfl

theorem expectedLine_ne_nil (hresolved : Resolved input)
    (htransfer : transferOf input = some transfer) :
    expectedLine input.proc transfer.target ≠ [] := by
  obtain ⟨_, xdlInfo, hinfo⟩ := hresolved transfer htransfer
  unfold expectedLine
  rw [hinfo]
  exact List.append_ne_nil_of_right_ne_nil _ (by decide)

/-- The branch part of one callback is as expected exactly when a tracked
transfer is regular. -/
theorem callStep_expected_iff (self : InstructionTracerManager) (hresolved : Resolved input) :
    (∃ next text, callStep input.proc self input.ctx input.info = some (next, text) ∧
        (text, next.isPltJmp) = expectStep self.pltLayout self.isPltJmp input) ↔
      ∀ transfer, tracked self.isPltJmp input = some transfer →
        Regular self.pltLayout input transfer := by
  cases htracked : tracked self.isPltJmp input with
  | none => simp [callStep_of_untracked htracked, expectStep, htracked]
  | some transfer =>
      obtain ⟨htransfer, _⟩ := Option.filter_eq_some_iff.mp htracked
      obtain ⟨htarget, xdlInfo, hinfo⟩ := hresolved transfer htransfer
      have hline := expectedLine_ne_nil hresolved htransfer
      rw [callStep_of_tracked htracked htarget, callInfo_of_resolved hinfo]
      simp only [expectStep, htracked, Regular, hinfo, Option.some.injEq, forall_eq']
      have hrange := inPltRange_iff self transfer.target
      by_cases hcontains : self.pltLayout.Contains transfer.target
      · have hend : ¬ self.pltLayout.AtEnd transfer.target := by
          rintro ⟨_, heq⟩
          exact BitVec.lt_irrefl _ (heq ▸ hcontains.2)
        have htest : inPltRange self transfer.target = true := hrange.mpr (Or.inl hcontains)
        simp [hcontains, hend, htest]
      · by_cases hend : self.pltLayout.AtEnd transfer.target
        · have htest : inPltRange self transfer.target = true := hrange.mpr (Or.inr hend)
          simp [hcontains, hend, htest, hline.symm]
        · have htest : inPltRange self transfer.target = false := by
            rw [← Bool.not_eq_true, hrange]
            exact not_or.mpr ⟨hcontains, hend⟩
          by_cases hslash : '/' ∈ xdlInfo.dliFname
          · simp [hcontains, hend, htest, hslash]
          · simp [hcontains, hend, htest, hslash]

/-- The same for the whole callback. -/
theorem instructionCallback_expected_iff (cs : Capstone) (self : InstructionTracerManager)
    (hresolved : Resolved input) :
    (∃ result, instructionCallback cs input.proc self input.ctx input.info = some result ∧
        (result.record.callInfo, result.self.isPltJmp) =
          expectStep self.pltLayout self.isPltJmp input) ↔
      ∀ transfer, tracked self.isPltJmp input = some transfer →
        Regular self.pltLayout input transfer := by
  have hstep := callStep_expected_iff
    { self with writeRegList := writtenRegisters input.info } hresolved
  refine Iff.trans ?_ hstep
  constructor
  · intro hreported
    obtain ⟨result, hcall, hexpected⟩ := hreported
    obtain ⟨next, text, hcallStep, rfl⟩ := instructionCallback_eq_some.mp hcall
    exact ⟨next, text, hcallStep, hexpected⟩
  · intro hreported
    obtain ⟨next, text, hcallStep, hexpected⟩ := hreported
    exact ⟨_, instructionCallback_eq_some.mpr ⟨next, text, hcallStep, rfl⟩, hexpected⟩

end

/-! ## Runs -/

/-- What a record shows of a call, and the flag after it. -/
def CallbackResult.callReport (result : CallbackResult) : Text × Bool :=
  (result.record.callInfo, result.self.isPltJmp)

def isCall (input : CallbackInput) : Bool :=
  (transferOf input).any fun transfer => transfer.kind = .call

/-- While a call waits in the PLT, the next transfer is a branch of the stub. -/
def StubsFollow (plt : PltLayout) : Bool → List CallbackInput → Prop
  | _, [] => True
  | pending, input :: rest =>
      (pending = true → isCall input = false) ∧
        StubsFollow plt (expectStep plt pending input).2 rest

/-- Whether a call waits in the PLT after a run. -/
def pendingAfter (plt : PltLayout) (pending : Bool) (inputs : List CallbackInput) : Bool :=
  inputs.foldl (fun pending input => (expectStep plt pending input).2) pending

variable {cs : Capstone} {self last : InstructionTracerManager} {inputs : List CallbackInput}
variable {results : List CallbackResult} {plt : PltLayout} {pending : Bool}

theorem callback_pltLayout {input : CallbackInput} {result : CallbackResult}
    (hcall : instructionCallback cs input.proc self input.ctx input.info = some result) :
    result.self.pltLayout = self.pltLayout := by
  rw [instructionCallback_self hcall]
  rfl

/-- A run reports calls as expected exactly when its tracked transfers are regular. -/
theorem run_expected_iff (cs : Capstone) (self : InstructionTracerManager)
    (hresolved : ∀ input ∈ inputs, Resolved input) :
    (∃ last results, runCallbacks cs self inputs = some (last, results) ∧
        results.map CallbackResult.callReport = expected self.pltLayout self.isPltJmp inputs) ↔
      ∀ entry ∈ trackedTransfers self.pltLayout self.isPltJmp inputs,
        Regular self.pltLayout entry.1 entry.2 := by
  induction inputs generalizing self with
  | nil => simp [expected, trackedTransfers]
  | cons input rest ih =>
      have hrest : ∀ later ∈ rest, Resolved later :=
        fun later hlater => hresolved later (List.mem_cons_of_mem _ hlater)
      have hstep := instructionCallback_expected_iff cs self
        (hresolved input List.mem_cons_self)
      have hhead : (∀ entry ∈ (tracked self.isPltJmp input).toList.map
            (fun transfer => (input, transfer)), Regular self.pltLayout entry.1 entry.2) ↔
          ∀ transfer, tracked self.isPltJmp input = some transfer →
            Regular self.pltLayout input transfer := by
        simp
      rw [trackedTransfers, List.forall_mem_append, hhead, ← hstep]
      constructor
      · intro hreported
        obtain ⟨last, results, hrun, hreports⟩ := hreported
        obtain ⟨next, result, later, hcallback, hlater, rfl⟩ := runFrom_cons_eq_some.mp hrun
        obtain ⟨hcall, rfl⟩ := callbackStep_eq_some.mp hcallback
        obtain ⟨hreport, hreports⟩ := List.cons.inj hreports
        -- the rest of the run starts from the flag the expected machine has
        have hflag : (expectStep self.pltLayout self.isPltJmp input).2 = result.self.isPltJmp := by
          rw [← hreport]
          rfl
        refine ⟨⟨result, hcall, hreport⟩, ?_⟩
        rw [hflag] at hreports ⊢
        rw [← callback_pltLayout hcall] at hreports ⊢
        exact (ih result.self hrest).mp ⟨last, later, hlater, hreports⟩
      · intro hhead
        obtain ⟨⟨result, hcall, hreport⟩, hregular⟩ := hhead
        have hflag : (expectStep self.pltLayout self.isPltJmp input).2 = result.self.isPltJmp := by
          rw [← hreport]
        rw [hflag, ← callback_pltLayout hcall] at hregular
        obtain ⟨last, later, hlater, hreports⟩ := (ih result.self hrest).mpr hregular
        refine ⟨last, result :: later, ?_, ?_⟩
        · exact runFrom_cons_eq_some.mpr
            ⟨result.self, result, later, callbackStep_eq_some.mpr ⟨hcall, rfl⟩, hlater, rfl⟩
        · rw [List.map_cons, expected, hflag, hreports, callback_pltLayout hcall]
          exact congrArg (· :: _) hreport

/-- The flag after a run that reports as expected. -/
theorem isPltJmp_after (hrun : runCallbacks cs self inputs = some (last, results))
    (hreports : results.map CallbackResult.callReport =
      expected self.pltLayout self.isPltJmp inputs) :
    last.isPltJmp = pendingAfter self.pltLayout self.isPltJmp inputs := by
  induction inputs generalizing self results with
  | nil =>
      obtain ⟨rfl, -⟩ := Prod.mk.inj (Option.some.inj hrun)
      rfl
  | cons input rest ih =>
      obtain ⟨next, result, later, hcallback, hlater, rfl⟩ := runFrom_cons_eq_some.mp hrun
      obtain ⟨hcall, rfl⟩ := callbackStep_eq_some.mp hcallback
      obtain ⟨hreport, hreports⟩ := List.cons.inj hreports
      have hflag : (expectStep self.pltLayout self.isPltJmp input).2 = result.self.isPltJmp := by
        rw [← hreport]
        rfl
      rw [hflag, ← callback_pltLayout hcall] at hreports
      rw [ih hlater hreports, callback_pltLayout hcall, pendingAfter, pendingAfter, List.foldl_cons,
        hflag]

/-- One instruction prints the line of its own call or of the one that waits. -/
theorem expectStep_count (plt : PltLayout) {input : CallbackInput} (hresolved : Resolved input)
    (hstub : pending = true → isCall input = false) :
    (if (expectStep plt pending input).1 ≠ [] then 1 else 0) +
        (expectStep plt pending input).2.toNat =
      (if isCall input then 1 else 0) + pending.toNat := by
  unfold expectStep
  cases htracked : tracked pending input with
  | none =>
      have hcall : isCall input = false := by
        unfold tracked at htracked
        unfold isCall
        cases htransfer : transferOf input with
        | none => rfl
        | some transfer =>
            rw [htransfer] at htracked
            have hbranch : transfer.kind ≠ .call ∧ pending = false := by simpa using htracked
            simp [hbranch.1]
      simp [hcall]
  | some transfer =>
      obtain ⟨htransfer, hkind⟩ := Option.filter_eq_some_iff.mp htracked
      have hline := expectedLine_ne_nil hresolved htransfer
      have hcall : isCall input = decide (transfer.kind = .call) := by
        simp [isCall, htransfer]
      rw [hcall] at hstub ⊢
      by_cases hkindCall : transfer.kind = .call
      · -- nothing waited before a call, so it is on its line or it waits now
        have hidle : pending = false := by simpa [hkindCall] using hstub
        by_cases hcontains : plt.Contains transfer.target
        · simp [hcontains, hkindCall, hidle]
        · simp [hcontains, hkindCall, hidle, hline]
      · -- a branch is tracked for the call that waits
        have hwaiting : pending = true := by simpa [hkindCall] using hkind
        by_cases hcontains : plt.Contains transfer.target
        · simp [hcontains, hkindCall, hwaiting]
        · simp [hcontains, hkindCall, hwaiting, hline]

/-- Every call is on exactly one line, except one that still waits in the PLT. -/
theorem expected_count (hresolved : ∀ input ∈ inputs, Resolved input)
    (hstubs : StubsFollow plt pending inputs) :
    (expected plt pending inputs).countP (fun report => decide (report.1 ≠ [])) +
        (pendingAfter plt pending inputs).toNat =
      inputs.countP isCall + pending.toNat := by
  induction inputs generalizing pending with
  | nil => simp [expected, pendingAfter]
  | cons input rest ih =>
      have hhead := expectStep_count plt (hresolved input List.mem_cons_self) hstubs.1
      have htail := ih (fun later hlater => hresolved later (List.mem_cons_of_mem _ hlater))
        hstubs.2
      rw [expected, List.countP_cons, List.countP_cons, pendingAfter, List.foldl_cons,
        ← pendingAfter]
      simp only [decide_eq_true_eq]
      omega

/-- Over the run every record shows the line its instruction should have, the
flag is set exactly while a call waits in the PLT, and calls and lines agree in
number. -/
def CallsReported (cs : Capstone) (self : InstructionTracerManager)
    (inputs : List CallbackInput) : Prop :=
  ∃ last results, runCallbacks cs self inputs = some (last, results) ∧
    results.map CallbackResult.callReport = expected self.pltLayout false inputs ∧
    results.countP (fun result => decide (result.record.callInfo ≠ [])) + last.isPltJmp.toNat =
      inputs.countP isCall

/-- Calls are reported over a run exactly when no tracked transfer goes to the
address just past the PLT, and every reported target lies in a module whose
name has a slash. -/
theorem calls_reported_iff (cs : Capstone) (hidle : self.isPltJmp = false)
    (hresolved : ∀ input ∈ inputs, Resolved input)
    (hstubs : StubsFollow self.pltLayout false inputs) :
    CallsReported cs self inputs ↔
      ∀ entry ∈ trackedTransfers self.pltLayout false inputs,
        Regular self.pltLayout entry.1 entry.2 := by
  have hrun := run_expected_iff cs self hresolved
  rw [hidle] at hrun
  rw [← hrun]
  constructor
  · intro hreported
    obtain ⟨last, results, hrun, hreports, _⟩ := hreported
    exact ⟨last, results, hrun, hreports⟩
  · intro hreported
    obtain ⟨last, results, hrun, hreports⟩ := hreported
    refine ⟨last, results, hrun, hreports, ?_⟩
    have hcount := expected_count hresolved hstubs
    have hflag := isPltJmp_after hrun (hidle ▸ hreports)
    rw [hidle] at hflag
    rw [hflag, ← Nat.add_zero (List.countP isCall inputs), ← Bool.toNat_false, ← hcount,
      ← hreports, List.countP_map]
    rfl

/-! ## A module with its PLT at offsets `0x100` to `0x200` -/

def pltManager : InstructionTracerManager :=
  { InstructionTracerManager.ofModule 0x1000 0x9000 with pltRange := (0x100, 0x200) }

/-- Every address belongs to one library. -/
def libraryProcess : Process :=
  { Process.empty with
    xdlAddr := fun _ => some ⟨"/system/lib64/libc.so".toList, 0x70000000, some "memcpy".toList⟩ }

/-- `bl` to an address -/
def callTo (target : BitVec 64) : CallbackInput where
  proc := libraryProcess
  ctx := { GumCpuContext.zero with pc := 0x1500 }
  info := ⟨.ofOperands .bl 0x1500 "bl".toList ("#0x".toList ++ hex target.toNat)
    [.plain (.imm target) ⟨true, false⟩]⟩

/-- `br x17` with a value in `X17` -/
def branchTo (target : BitVec 64) : CallbackInput where
  proc := libraryProcess
  ctx := { GumCpuContext.zero with x := fun n => if n = 17 then target else 0 }
  info := ⟨.ofOperands .br 0x1108 "br".toList "x17".toList [.plain (.reg (.x 17)) ⟨true, false⟩]⟩

theorem callTo_resolved {target : BitVec 64} (htarget : target ≠ 0) : Resolved (callTo target) := by
  intro transfer htransfer
  obtain rfl := Option.some.inj htransfer
  exact ⟨htarget, _, rfl⟩

theorem branchTo_resolved {target : BitVec 64} (htarget : target ≠ 0) :
    Resolved (branchTo target) := by
  intro transfer htransfer
  obtain rfl := Option.some.inj htransfer
  exact ⟨htarget, _, rfl⟩

theorem regular_of_libraryProcess {plt : PltLayout} {input : CallbackInput} {transfer : Transfer}
    (hproc : input.proc = libraryProcess) (hend : ¬ plt.AtEnd transfer.target) :
    Regular plt input transfer := by
  refine ⟨hend, ?_⟩
  intro _ xdlInfo hinfo
  rw [hproc] at hinfo
  obtain rfl := Option.some.inj hinfo
  decide

/-- A call through the PLT, a direct call and a switch jump. -/
theorem calls_reported_sample :
    ∃ last results, runCallbacks .standard pltManager
        [callTo 0x1100, branchTo 0x70001000, callTo 0x1400, branchTo 0x1600] =
          some (last, results) ∧
      results.map (fun result => result.record.callInfo) =
        [[], "call addr: 70001000 [libc.so!memcpy]".toList,
          "call addr: 1400 [libc.so!memcpy]".toList, []] ∧
      results.map (fun result => result.self.isPltJmp) = [true, false, false, false] := by
  have hresolved : ∀ input ∈ [callTo 0x1100, branchTo 0x70001000, callTo 0x1400, branchTo 0x1600],
      Resolved input := by
    simp only [List.mem_cons, List.not_mem_nil, or_false, forall_eq_or_imp, forall_eq]
    exact ⟨callTo_resolved (by decide), branchTo_resolved (by decide),
      callTo_resolved (by decide), branchTo_resolved (by decide)⟩
  obtain ⟨last, results, hrun, hreports, -⟩ : CallsReported .standard pltManager
      [callTo 0x1100, branchTo 0x70001000, callTo 0x1400, branchTo 0x1600] := by
    refine (calls_reported_iff .standard rfl hresolved ?_).mpr ?_
    · refine ⟨?_, ?_, ?_, ?_, trivial⟩ <;> decide
    have htracked : trackedTransfers pltManager.pltLayout false
          [callTo 0x1100, branchTo 0x70001000, callTo 0x1400, branchTo 0x1600] =
        [(callTo 0x1100, ⟨.call, 0x1100⟩), (branchTo 0x70001000, ⟨.branch, 0x70001000⟩),
          (callTo 0x1400, ⟨.call, 0x1400⟩)] := rfl
    rw [htracked]
    simp only [List.mem_cons, List.not_mem_nil, or_false, forall_eq_or_imp, forall_eq]
    exact ⟨regular_of_libraryProcess rfl (by decide), regular_of_libraryProcess rfl (by decide),
      regular_of_libraryProcess rfl (by decide)⟩
  have hlines := congrArg (List.map Prod.fst) hreports
  have hflags := congrArg (List.map Prod.snd) hreports
  rw [List.map_map] at hlines hflags
  exact ⟨last, results, hrun, hlines.trans (by decide), hflags.trans (by decide)⟩

/-- A call to the first byte after the PLT has no line. -/
theorem callTo_pltEnd_unreported :
    (∀ input ∈ [callTo 0x1200], Resolved input) ∧
      StubsFollow pltManager.pltLayout false [callTo 0x1200] ∧
      ¬ CallsReported .standard pltManager [callTo 0x1200] := by
  refine ⟨?_, ⟨by decide, trivial⟩, ?_⟩
  · simp only [List.mem_singleton, forall_eq]
    exact callTo_resolved (by decide)
  · intro hreported
    obtain ⟨last, results, hrun, hreports, _⟩ := hreported
    obtain ⟨_, rfl⟩ := Prod.mk.inj (Option.some.inj hrun)
    exact absurd hreports (by decide)

end GumTVM
