import GumTVM.Record.Calls
import GumTVM.Xdl.Names

/-!
# Names in call lines

A call line names the target of a transfer. With symbol lookup as the vendored
library performs it, the module printed contains the target, and the name is the
one of a symbol whose range has it, or else is made from the offset.
-/

namespace GumTVM

open Foundation

variable {cs : Capstone} {self : InstructionTracerManager} {input : CallbackInput}
variable {host : XdlHost} {objects : List DlPhdrInfo}

/-- A module and a name for an address: the last component of the path of an
object that contains the address, and the name of a symbol whose range has it or
the text that stands for an offset without a symbol. -/
structure NamesTarget (host : XdlHost) (proc : Process) (target : BitVec 64)
    (handle : XdlHandle) (soName symbolName : Text) : Prop where
  contains : handle.object.Contains target
  soName : afterLastSlash handle.pathname = some soName
  symbol : (∃ sym pointer, SymbolAt host handle sym pointer ∧
      (target - (handle.loadBias + sym.stValue)).toNat < sym.stSize.toNat ∧
      pointer.text host.memory = some symbolName) ∨
    symbolName = proc.staleText ("sub_".toList ++ hex (target - handle.loadBias).toNat)

/-- What `xdl_addr` tells the tracer comes from an object that contains the
address. -/
theorem resolve_located (hobjects : loadedObjects host = some objects) {addr : BitVec 64}
    {xdlInfo : XdlInfo} (hresolve : host.resolve addr = some (some xdlInfo)) :
    ∃ (handle : XdlHandle) (info : XdlAddrInfo), handle.object ∈ objects ∧
      Located host addr handle info ∧ info.printed host.memory = some xdlInfo := by
  obtain ⟨⟨cache, answer⟩, hlookup, hanswer⟩ := Option.bind_eq_some_iff.mp hresolve
  cases answer with
  | none => cases hanswer
  | some info =>
      obtain ⟨_, hprinted, heq⟩ := Option.map_eq_some_iff.mp hanswer
      cases heq
      obtain ⟨_, hreported⟩ := xdlAddr_step hobjects (by simp [CacheHolds]) hlookup
      obtain ⟨handle, hobject, _, hby⟩ := hreported info rfl
      exact ⟨handle, info, hobject, hby.located, hprinted⟩

theorem callInfo_names (hobjects : loadedObjects host = some objects) {target : BitVec 64}
    (hresolve : host.resolve target = some (input.proc.xdlAddr target)) {text : Text}
    (hcall : callInfo input.proc target = some text) (hprinted : text ≠ []) :
    ∃ (handle : XdlHandle) (soName symbolName : Text), handle.object ∈ objects ∧
      NamesTarget host input.proc target handle soName symbolName ∧
      text = "call addr: ".toList ++ hex target.toNat ++ " [".toList ++ soName ++
        "!".toList ++ symbolName ++ "]".toList := by
  unfold callInfo at hcall
  split at hcall
  · cases hcall
    exact absurd rfl hprinted
  · next xdlInfo hinfo =>
      rw [hinfo] at hresolve
      obtain ⟨handle, info, hobject, hlocated, hread⟩ := resolve_located hobjects hresolve
      obtain ⟨soName, hsoName, rfl⟩ := Option.map_eq_some_iff.mp hcall
      unfold XdlAddrInfo.printed at hread
      split at hread
      · cases hread
        rw [hlocated.fname] at hsoName
        refine ⟨handle, soName, _, hobject, ⟨hlocated.contains, hsoName, Or.inr ?_⟩, rfl⟩
        simp only [symName, hlocated.fbase]
      · next pointer hpointer =>
          obtain ⟨name, hname, rfl⟩ := Option.map_eq_some_iff.mp hread
          rw [hlocated.fname] at hsoName
          obtain ⟨sym, hsymbol, _, _, hsaddr, hssize, hrange⟩ := hlocated.symbol pointer hpointer
          rw [hsaddr, hssize] at hrange
          exact ⟨handle, soName, name, hobject,
            ⟨hlocated.contains, hsoName, Or.inl ⟨sym, pointer, hsymbol, hrange, hname⟩⟩, rfl⟩

/-- The address looked up is the target of the transfer the instruction makes. -/
theorem jmpAddr_transfer (hjmp : (jmpAddr self input.ctx input.info).2 ≠ 0) :
    ∃ transfer, transferOf input = some transfer ∧
      transfer.target = (jmpAddr self input.ctx input.info).2 := by
  rw [jmpAddr_eq] at hjmp ⊢
  cases htransfer : transferOf input with
  | none =>
      rw [htransfer] at hjmp
      exact absurd rfl hjmp
  | some transfer =>
      rw [htransfer] at hjmp
      obtain ⟨kind, target⟩ := transfer
      refine ⟨_, rfl, ?_⟩
      cases kind with
      | call => rfl
      | branch =>
          dsimp only at hjmp ⊢
          split at hjmp
          · next hflag => rw [if_pos hflag]
          -- a switch jump looks up nothing
          · exact absurd rfl hjmp

/-- The call line of a record names the target of the transfer: the module that
contains it and a symbol whose range has it, if there is a name. -/
theorem call_line_names (hobjects : loadedObjects host = some objects)
    (hresolve : ∀ transfer, transferOf input = some transfer →
      host.resolve transfer.target = some (input.proc.xdlAddr transfer.target))
    {result : CallbackResult}
    (hcall : instructionCallback cs input.proc self input.ctx input.info = some result)
    (hprinted : result.record.callInfo ≠ []) :
    ∃ transfer, transferOf input = some transfer ∧
      ∃ (handle : XdlHandle) (soName symbolName : Text), handle.object ∈ objects ∧
        NamesTarget host input.proc transfer.target handle soName symbolName ∧
        result.record.callInfo = "call addr: ".toList ++ hex transfer.target.toNat ++
          " [".toList ++ soName ++ "!".toList ++ symbolName ++ "]".toList := by
  obtain ⟨next, callText, hstep, rfl⟩ := instructionCallback_eq_some.mp hcall
  dsimp only at hprinted ⊢
  unfold callStep at hstep
  dsimp only at hstep
  split at hstep
  · cases hstep
    exact absurd rfl hprinted
  · next hnonzero =>
      split at hstep
      · cases hstep
        exact absurd rfl hprinted
      · obtain ⟨text, htext, heq⟩ := Option.map_eq_some_iff.mp hstep
        cases heq
        obtain ⟨transfer, htransfer, htarget⟩ := jmpAddr_transfer hnonzero
        rw [← htarget] at htext
        exact ⟨transfer, htransfer,
          callInfo_names hobjects (hresolve transfer htransfer) htext hprinted⟩

/-! ## A call into the sample -/

/-- `bl` into the first sample object, whose symbols the process knows. -/
def callToFoo : CallbackInput :=
  { callTo 0x10510 with
    proc := { Process.empty with xdlAddr := fun addr => (fooHost.resolve addr).getD none } }

theorem call_line_names_foo :
    ∃ result, instructionCallback .standard callToFoo.proc pltManager callToFoo.ctx
        callToFoo.info = some result ∧
      result.record.callInfo = "call addr: 10510 [libfoo.so!foo]".toList ∧
      ∃ transfer, transferOf callToFoo = some transfer ∧
        ∃ (handle : XdlHandle) (soName symbolName : Text),
          handle.object ∈ [fooObject, bareObject] ∧
          NamesTarget fooHost callToFoo.proc transfer.target handle soName symbolName ∧
          result.record.callInfo = "call addr: ".toList ++ hex transfer.target.toNat ++
            " [".toList ++ soName ++ "!".toList ++ symbolName ++ "]".toList := by
  obtain ⟨result, hcall, hline⟩ : ∃ result, instructionCallback .standard callToFoo.proc pltManager
        callToFoo.ctx callToFoo.info = some result ∧
      result.record.callInfo = "call addr: 10510 [libfoo.so!foo]".toList :=
    ⟨_, rfl, by decide +kernel⟩
  have hresolve : ∀ transfer, transferOf callToFoo = some transfer →
      fooHost.resolve transfer.target = some (callToFoo.proc.xdlAddr transfer.target) := by
    intro transfer htransfer
    obtain rfl := Option.some.inj htransfer
    rfl
  have hprinted : result.record.callInfo ≠ [] := by
    rw [hline]
    decide
  exact ⟨result, hcall, hline, call_line_names fooHost_objects hresolve hcall hprinted⟩

end GumTVM
