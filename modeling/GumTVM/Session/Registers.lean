import GumTVM.Foundation.Updates
import GumTVM.Record.Changes
import GumTVM.Session.TraceFile
import Mathlib.Data.List.Nodup

/-!
# Registers in the trace file

The results of a record update the registers known from the records before it.
Read that way, a trace file gives the general-purpose registers at every callout
exactly when between two callouts no register changes that is not printed in
full.
-/

namespace GumTVM

open Foundation

variable {cs : Capstone}

/-! ## Names -/

/-- The registers whose values are printed. -/
def printedRegisters : List Arm64Reg :=
  [.sp, .wsp, .fp, .lr, .wzr, .xzr] ++ (List.finRange 29).map .x ++ (List.finRange 31).map .w

theorem mem_printedRegisters {reg : Arm64Reg} (hreg : isGeneralPurpose reg = true) :
    reg ∈ printedRegisters := by
  unfold printedRegisters
  cases reg with
  | w n =>
      exact List.mem_append_right _ (List.mem_map_of_mem (List.mem_finRange n))
  | x n =>
      exact List.mem_append_left _
        (List.mem_append_right _ (List.mem_map_of_mem (List.mem_finRange n)))
  | wzr | xzr | wsp | sp | fp | lr => simp
  | _ => cases hreg

/-- No two of them share a name. -/
def Capstone.DistinctNames (cs : Capstone) : Prop := (printedRegisters.map cs.regName).Nodup

theorem Capstone.standard_distinctNames : Capstone.standard.DistinctNames := by
  unfold Capstone.DistinctNames
  decide +kernel

/-- The register that a name on a results line stands for. -/
def namedGpr (cs : Capstone) (name : Text) : Option Gpr :=
  (printedRegisters.find? fun reg => cs.regName reg = name).bind gprOf

theorem namedGpr_regName (hnames : cs.DistinctNames) {reg : Arm64Reg}
    (hreg : isGeneralPurpose reg = true) : namedGpr cs (cs.regName reg) = gprOf reg := by
  have hmem := mem_printedRegisters hreg
  unfold namedGpr
  cases hfind : printedRegisters.find? fun other => cs.regName other = cs.regName reg with
  | none =>
      have hnone := List.find?_eq_none.mp hfind reg hmem
      simp at hnone
  | some other =>
      have hname : cs.regName other = cs.regName reg := by
        simpa using List.find?_some hfind
      have hother : other = reg :=
        List.inj_on_of_nodup_map hnames (List.mem_of_find?_eq_some hfind) hmem hname
      rw [hother, Option.bind_some]

/-! ## Reading registers from results -/

/-- The updates that results stand for. Results of zero registers are skipped. -/
def registerUpdates (cs : Capstone) (results : List (Text × BitVec 64)) :
    List (Gpr × BitVec 64) :=
  results.filterMap fun (name, value) => (namedGpr cs name).map fun gpr => (gpr, value)

/-- The registers after the results of each record. -/
def replayRegisters (cs : Capstone) :
    (Gpr → BitVec 64) → List (List (Text × BitVec 64)) → List (Gpr → BitVec 64)
  | _, [] => []
  | registers, results :: rest =>
      let next := assign registers (registerUpdates cs results)
      next :: replayRegisters cs next rest

theorem replayRegisters_cons (registers : Gpr → BitVec 64) (results : List (Text × BitVec 64))
    (rest : List (List (Text × BitVec 64))) :
    replayRegisters cs registers (results :: rest) =
      assign registers (registerUpdates cs results) ::
        replayRegisters cs (assign registers (registerUpdates cs results)) rest := rfl

/-- The registers in a state. -/
def registersOf (ctx : GumCpuContext) (gpr : Gpr) : BitVec 64 := gpr.value ctx

/-- The value printed for a register is that of the whole register: the upper
half of a `W` register is clear, and `WSP`, printed as zero, is zero. -/
def PrintedInFull (ctx : GumCpuContext) : Arm64Reg → Prop
  | .w n => (ctx.xAt n.val).toNat < 2 ^ 32
  | .wsp => ctx.sp = 0
  | _ => True

theorem setWidth_setWidth_eq_iff {value : BitVec 64} :
    (value.setWidth 32).setWidth 64 = value ↔ value.toNat < 2 ^ 32 := by
  rw [← BitVec.toNat_inj, BitVec.toNat_setWidth, BitVec.toNat_setWidth]
  omega

theorem getRegisterValue_gprOf {reg : Arm64Reg} {gpr : Gpr} (hreg : gprOf reg = some gpr)
    (ctx : GumCpuContext) :
    ∃ value, getRegisterValue reg ctx = some value ∧
      (value = registersOf ctx gpr ↔ PrintedInFull ctx reg) := by
  unfold registersOf
  cases reg with
  | w n =>
      obtain rfl := Option.some.inj hreg
      refine ⟨_, rfl, ?_⟩
      rw [and_low_mask]
      exact setWidth_setWidth_eq_iff
  | wsp =>
      obtain rfl := Option.some.inj hreg
      exact ⟨_, rfl, eq_comm⟩
  | x n | fp | lr | sp =>
      obtain rfl := Option.some.inj hreg
      exact ⟨_, rfl, iff_of_true rfl trivial⟩
  | _ => cases hreg

/-- Between two callouts only registers written by operands of the first one's
instruction change, and these are printed in full at the second. -/
structure ChangesPrinted (first second : CallbackInput) : Prop where
  unlisted : ∀ gpr, ¬ Names (writtenRegisters first.info) gpr →
    registersOf second.ctx gpr = registersOf first.ctx gpr
  inFull : ∀ reg ∈ writtenRegisters first.info, PrintedInFull second.ctx reg

/-! ## The replay of the results printed -/

/-- What a callout prints of the registers noted. -/
def namedResults (cs : Capstone) (written : List Arm64Reg) (ctx : GumCpuContext) :
    List (Text × BitVec 64) :=
  (written.filterMap fun reg => (getRegisterValue reg ctx).map fun value => (reg, value)).map
    fun (reg, value) => (cs.regName reg, value)

/-- The registers that some operands write with their values. -/
def writtenValues (written : List Arm64Reg) (ctx : GumCpuContext) : List (Gpr × BitVec 64) :=
  written.filterMap fun reg => (gprOf reg).bind fun gpr =>
    (getRegisterValue reg ctx).map fun value => (gpr, value)

theorem registerUpdates_namedResults (hnames : cs.DistinctNames) (written : List Arm64Reg)
    (ctx : GumCpuContext) :
    registerUpdates cs (namedResults cs written ctx) = writtenValues written ctx := by
  unfold registerUpdates namedResults writtenValues
  rw [List.filterMap_map, List.filterMap_filterMap]
  apply List.filterMap_congr
  intro reg _
  cases hvalue : getRegisterValue reg ctx with
  | none => simp
  | some value =>
      have hreg : isGeneralPurpose reg = true := by
        rw [← getRegisterValue_isSome reg ctx, hvalue, Option.isSome_some]
      simp [namedGpr_regName hnames hreg, Option.map_eq_bind]

theorem writtenValues_keys (written : List Arm64Reg) (ctx : GumCpuContext) :
    (writtenValues written ctx).map Prod.fst = written.filterMap gprOf := by
  unfold writtenValues
  rw [List.map_filterMap]
  apply List.filterMap_congr
  intro reg _
  cases hgpr : gprOf reg with
  | none => rfl
  | some gpr =>
      obtain ⟨value, hvalue, -⟩ := getRegisterValue_gprOf hgpr ctx
      simp [hvalue]

theorem writtenValues_eq_iff {written : List Arm64Reg} {ctx : GumCpuContext} :
    (∀ update ∈ writtenValues written ctx, update.2 = registersOf ctx update.1) ↔
      ∀ reg ∈ written, PrintedInFull ctx reg := by
  unfold writtenValues
  constructor
  · intro hupdates reg hreg
    cases hgpr : gprOf reg with
    | none =>
        cases reg with
        | w n | wsp => cases hgpr
        | _ => trivial
    | some gpr =>
        obtain ⟨value, hvalue, hfull⟩ := getRegisterValue_gprOf hgpr ctx
        exact hfull.mp (hupdates (gpr, value)
          (List.mem_filterMap.mpr ⟨reg, hreg, by simp [hgpr, hvalue]⟩))
  · intro hfull update hupdate
    obtain ⟨reg, hreg, hsome⟩ := List.mem_filterMap.mp hupdate
    obtain ⟨gpr, hgpr, hmap⟩ := Option.bind_eq_some_iff.mp hsome
    obtain ⟨value, hvalue, rfl⟩ := Option.map_eq_some_iff.mp hmap
    obtain ⟨other, hother, hiff⟩ := getRegisterValue_gprOf hgpr ctx
    obtain rfl := Option.some.inj (hvalue.symm.trans hother)
    exact hiff.mpr (hfull reg hreg)

/-- The results at `second` lead from the registers at `first` to those at
`second`. -/
theorem assign_namedResults_iff (hnames : cs.DistinctNames) {first second : CallbackInput}
    (hdistinct : ((writtenRegisters first.info).filterMap gprOf).Nodup) :
    assign (registersOf first.ctx) (registerUpdates cs
        (namedResults cs (writtenRegisters first.info) second.ctx)) = registersOf second.ctx ↔
      ChangesPrinted first second := by
  have hkeys := writtenValues_keys (writtenRegisters first.info) second.ctx
  rw [registerUpdates_namedResults hnames, assign_eq_iff (hkeys ▸ hdistinct), hkeys,
    writtenValues_eq_iff]
  have hnamed (gpr : Gpr) : gpr ∈ (writtenRegisters first.info).filterMap gprOf ↔
      Names (writtenRegisters first.info) gpr := List.mem_filterMap
  simp only [hnamed]
  constructor
  · intro hchanges
    exact ⟨fun gpr hgpr => (hchanges.1 gpr hgpr).symm, hchanges.2⟩
  · intro hchanges
    exact ⟨fun gpr hgpr => (hchanges.unlisted gpr hgpr).symm, hchanges.inFull⟩

theorem replay_printed_iff (hnames : cs.DistinctNames) {first : CallbackInput}
    {rest : List CallbackInput}
    (hdistinct : ∀ input ∈ first :: rest, ((writtenRegisters input.info).filterMap gprOf).Nodup) :
    replayRegisters cs (registersOf first.ctx)
        ((printedResults cs (writtenRegisters first.info) rest).map Prod.fst) =
          rest.map (fun input => registersOf input.ctx) ↔
      (first :: rest).IsChain ChangesPrinted := by
  induction rest generalizing first with
  | nil => exact iff_of_true rfl (List.isChain_singleton first)
  | cons second later ih =>
      have hstep := @assign_namedResults_iff cs hnames first second
        (hdistinct first List.mem_cons_self)
      have hlater := ih fun input hinput => hdistinct input (List.mem_cons_of_mem _ hinput)
      have hprinted : (printedResults cs (writtenRegisters first.info) (second :: later)).map
          Prod.fst = namedResults cs (writtenRegisters first.info) second.ctx ::
            (printedResults cs (writtenRegisters second.info) later).map Prod.fst := rfl
      rw [hprinted, replayRegisters_cons, List.isChain_cons_cons, ← hstep, ← hlater,
        List.map_cons, List.cons.injEq]
      refine and_congr_right fun heq => ?_
      rw [heq]

/-- Whatever the threads do, the results in the trace file and the registers at
the first callout give the registers at every callout exactly when no register
changes between two callouts without being printed in full. -/
theorem session_registers (hnames : cs.WordNames) (hdistinct : cs.DistinctNames) (files : Files)
    {call : GumTraceCall} (hcall : call.Succeeds) {events : List Event}
    (honce : ∀ event ∈ events, ∀ call, event ≠ .gumTrace call)
    (hclean : ∀ tid input, Event.callback tid input ∈ events → input.Clean) {last : System}
    {outputs : List (Report × Option RecordSummary)}
    (hrun : runFrom (System.recordStep cs) (System.start files call) events =
      some (last, outputs))
    (hwritten : ∀ input ∈ calloutInputs events,
      ((writtenRegisters input.info).filterMap gprOf).Nodup)
    {first : CallbackInput} (hfirst : (calloutInputs events).head? = some first) :
    replayRegisters cs (registersOf first.ctx)
        ((decodeTrace (last.world.files call.traceFile)).map RecordSummary.results) =
          (calloutInputs events).map (fun input => registersOf input.ctx) ↔
      (calloutInputs events).IsChain ChangesPrinted := by
  have hinv := TraceInvariant.of_run hnames files hcall honce hclean hrun
  have hresults := records_results honce hrun
  rw [(start_handedOn files call).1] at hresults
  have hread : (records outputs).map RecordSummary.results =
      (printedResults cs [] (calloutInputs events)).map Prod.fst := by
    rw [← hresults, List.map_map]
    rfl
  rw [hinv.file.decodeTrace.1, hread]
  cases hinputs : calloutInputs events with
  | nil =>
      rw [hinputs] at hfirst
      cases hfirst
  | cons input rest =>
      rw [hinputs] at hfirst hwritten
      obtain rfl := Option.some.inj hfirst
      rw [← replay_printed_iff hdistinct hwritten]
      -- the first record has no results
      exact List.cons_eq_cons.trans (and_iff_right rfl)

theorem moveStep_changesPrinted :
    ChangesPrinted moveStep.callback (nopStep (stateAt 0x1004 1)).callback where
  unlisted := by
    unfold Names
    intro gpr
    cases gpr with
    | sp => exact fun _ => rfl
    | x n =>
        revert n
        decide
  inFull := by
    intro reg hreg
    obtain rfl := List.mem_singleton.mp hreg
    trivial

theorem session_registers_recorded :
    ∃ last outputs,
      runFrom (System.recordStep .standard) (System.start (fun _ => []) sampleCall)
        recordedSession = some (last, outputs) ∧
      replayRegisters .standard (registersOf moveStep.before)
          ((decodeTrace (last.world.files sampleCall.traceFile)).map RecordSummary.results) =
        [registersOf moveStep.before, registersOf (stateAt 0x1004 1)] := by
  obtain ⟨last, outputs, hrun⟩ : ∃ last outputs,
      runFrom (System.recordStep .standard) (System.start (fun _ => []) sampleCall)
        recordedSession = some (last, outputs) := ⟨_, _, rfl⟩
  have hcall : sampleCall.Succeeds := ⟨⟨_, rfl, by decide⟩, rfl, rfl⟩
  have hiff := session_registers Capstone.standard_wordNames
    Capstone.standard_distinctNames _ hcall recordedSession_once
    (fun _ _ hmem => recordedSession_clean hmem) hrun (by decide) rfl
  exact ⟨last, outputs, hrun, hiff.mpr (List.isChain_pair.mpr moveStep_changesPrinted)⟩

end GumTVM
