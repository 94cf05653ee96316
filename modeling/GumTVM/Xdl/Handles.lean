import GumTVM.Xdl.Lookup
import GumTVM.Xdl.Symbols

/-!
# What a handle reports

A handle stands for one of the loaded objects. The tables it has loaded are the
ones that would be loaded now, so what it reports for an address depends on the
object alone.
-/

namespace GumTVM

open Foundation

variable {host : XdlHost} {addr : BitVec 64}

namespace XdlHandle

/-- The object a handle was made for. -/
def object (handle : XdlHandle) : DlPhdrInfo :=
  ⟨handle.loadBias, some handle.pathname, handle.dlpiPhdr⟩

/-- The tables the object has. -/
def dynsymNow (host : XdlHost) (handle : XdlHandle) : Option Dynsym :=
  xdlDynsymLoad host.memory handle.loadBias handle.dlpiPhdr

def symtabNow (host : XdlHost) (handle : XdlHandle) : Option Symtab :=
  xdlSymtabLoad host handle.pathname handle.loadBias handle.dlpiPhdr

/-- The tables that have been loaded are those of the object. -/
structure UpToDate (host : XdlHost) (handle : XdlHandle) : Prop where
  dynsym : handle.dynsymTryLoad = true → handle.dynsymNow host = some handle.dynsym
  symtab : handle.symtabTryLoad = true → handle.symtabNow host = some handle.symtab

/-- What is reported for an address in the object, from its tables. -/
def reported (host : XdlHost) (addr : BitVec 64) (handle : XdlHandle) : Option XdlAddrInfo :=
  (handle.dynsymNow host).bind fun dynsym =>
    (dynsym.search host.memory (addr - handle.loadBias)).bind fun
      | some sym => some (handle.infoOf sym (dynsym.name sym))
      | none =>
          (handle.symtabNow host).bind fun symtab =>
            (symtab.search (addr - handle.loadBias)).map fun
              | some sym => handle.infoOf sym (symtab.name sym)
              | none => handle.info

variable {handle next : XdlHandle}

theorem create_upToDate (pathname : Text) (info : DlPhdrInfo) :
    (create pathname info).UpToDate host where
  dynsym hloaded := by cases hloaded
  symtab hloaded := by cases hloaded

theorem loadDynsym_eq (hdate : handle.UpToDate host) :
    handle.loadDynsym host = (handle.dynsymNow host).map fun dynsym =>
      { handle with dynsymTryLoad := true, dynsym } := by
  unfold loadDynsym
  split
  · next hloaded =>
      rw [hdate.dynsym hloaded, Option.map_some, ← hloaded]
  · rfl

theorem loadSymtab_eq (hdate : handle.UpToDate host) :
    handle.loadSymtab host = (handle.symtabNow host).map fun symtab =>
      { handle with symtabTryLoad := true, symtab } := by
  unfold loadSymtab
  split
  · next hloaded =>
      rw [hdate.symtab hloaded, Option.map_some, ← hloaded]
  · rfl

theorem UpToDate.withDynsym (hdate : handle.UpToDate host) {dynsym : Dynsym}
    (hdynsym : handle.dynsymNow host = some dynsym) :
    ({ handle with dynsymTryLoad := true, dynsym } : XdlHandle).UpToDate host where
  dynsym _ := hdynsym
  symtab := hdate.symtab

theorem UpToDate.withSymtab (hdate : handle.UpToDate host) {symtab : Symtab}
    (hsymtab : handle.symtabNow host = some symtab) :
    ({ handle with symtabTryLoad := true, symtab } : XdlHandle).UpToDate host where
  dynsym := hdate.dynsym
  symtab _ := hsymtab

/-- What a handle does for an address, in terms of the tables of its object. -/
theorem describe_eq (hdate : handle.UpToDate host) :
    handle.describe host addr =
      (handle.dynsymNow host).bind fun dynsym =>
        (dynsym.search host.memory (addr - handle.loadBias)).bind fun
          | some sym => some (handle.infoOf sym (dynsym.name sym),
              { handle with dynsymTryLoad := true, dynsym })
          | none =>
              (handle.symtabNow host).bind fun symtab =>
                (symtab.search (addr - handle.loadBias)).map fun found =>
                  (match found with
                    | some sym => handle.infoOf sym (symtab.name sym)
                    | none => handle.info,
                  { handle with
                    dynsymTryLoad := true, dynsym, symtabTryLoad := true, symtab }) := by
  unfold describe xdlSymByAddr
  rw [loadDynsym_eq hdate]
  cases hdynsym : handle.dynsymNow host with
  | none => rfl
  | some dynsym =>
      simp only [Option.map_some, Option.bind_some]
      cases hsearch : dynsym.search host.memory (addr - handle.loadBias) with
      | none => rfl
      | some found =>
          cases found with
          | some sym => rfl
          | none =>
              simp only [Option.map_some, Option.bind_some]
              unfold xdlDsymByAddr
              rw [loadSymtab_eq (hdate.withDynsym hdynsym)]
              change ((handle.symtabNow host).map _ |>.bind _).map _ = _
              cases hsymtab : handle.symtabNow host with
              | none => rfl
              | some symtab =>
                  simp only [Option.map_some, Option.bind_some, Option.map_map]
                  cases symtab.search (addr - handle.loadBias) with
                  | none => rfl
                  | some found => cases found <;> rfl

/-- A handle reports what its object's tables say. -/
theorem describe_reported (hdate : handle.UpToDate host) :
    (handle.describe host addr).map Prod.fst = handle.reported host addr := by
  rw [describe_eq hdate]
  unfold reported
  cases handle.dynsymNow host with
  | none => rfl
  | some dynsym =>
      simp only [Option.bind_some]
      cases dynsym.search host.memory (addr - handle.loadBias) with
      | none => rfl
      | some found =>
          cases found with
          | some sym => rfl
          | none =>
              simp only [Option.bind_some]
              cases handle.symtabNow host with
              | none => rfl
              | some symtab =>
                  simp only [Option.bind_some, Option.map_map]
                  cases symtab.search (addr - handle.loadBias) with
                  | none => rfl
                  | some found => cases found <;> rfl

/-- Describing an address keeps the object and the tables right. -/
theorem describe_upToDate {info : XdlAddrInfo} (hdate : handle.UpToDate host)
    (hdescribe : handle.describe host addr = some (info, next)) :
    next.UpToDate host ∧ next.object = handle.object := by
  rw [describe_eq hdate] at hdescribe
  obtain ⟨dynsym, hdynsym, hsearch⟩ := Option.bind_eq_some_iff.mp hdescribe
  obtain ⟨found, _, hfound⟩ := Option.bind_eq_some_iff.mp hsearch
  have hloaded := hdate.withDynsym hdynsym
  cases found with
  | some sym =>
      cases hfound
      exact ⟨hloaded, rfl⟩
  | none =>
      obtain ⟨symtab, hsymtab, hmap⟩ := Option.bind_eq_some_iff.mp hfound
      obtain ⟨_, _, heq⟩ := Option.map_eq_some_iff.mp hmap
      cases heq
      exact ⟨hloaded.withSymtab hsymtab, rfl⟩

/-- The report depends on the object alone. -/
theorem reported_congr {other : XdlHandle} (hobject : handle.object = other.object) :
    handle.reported host addr = other.reported host addr := by
  obtain ⟨hbias, hname, hphdrs⟩ := DlPhdrInfo.mk.inj hobject
  obtain ⟨pathname, loadBias, dlpiPhdr, _, _, _, _⟩ := handle
  obtain ⟨otherPathname, otherBias, otherPhdr, _, _, _, _⟩ := other
  cases hbias
  cases hname
  cases hphdrs
  rfl

end XdlHandle

end GumTVM
