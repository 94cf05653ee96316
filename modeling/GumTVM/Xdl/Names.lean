import GumTVM.Xdl.Cache

/-!
# Names of addresses

Whatever the memory, the files and the cache are like, a name that is reported
is the one of a defined symbol whose range has the address. If the tables of the
object are sound, the first such symbol is found: those of `.dynsym` come first,
in the order of the hash table, and then those of `.symtab`.
-/

namespace GumTVM

open Foundation

variable {host : XdlHost} {objects : List DlPhdrInfo} {addr : BitVec 64}

/-! ## What is reported is right -/

/-- A symbol of a table of the object, with the pointer to its name. -/
inductive SymbolAt (host : XdlHost) (handle : XdlHandle) : ElfSym → NamePointer → Prop where
  | dynsym {tables : Dynsym} {sym : ElfSym} (n : BitVec 32) :
      handle.dynsymNow host = some tables → tables.symAt host.memory n = some sym →
        SymbolAt host handle sym (tables.name sym)
  | symtab {tables : Symtab} {sym : ElfSym} (i : Nat) :
      handle.symtabNow host = some tables → tables.symAt i = some sym →
        SymbolAt host handle sym (tables.name sym)

/-- The report names the object that contains the address, and a symbol of it
whose range has the address. -/
structure Located (host : XdlHost) (addr : BitVec 64) (handle : XdlHandle)
    (info : XdlAddrInfo) : Prop where
  contains : handle.object.Contains addr
  fname : info.dliFname = handle.pathname
  fbase : info.dliFbase = handle.loadBias
  symbol : ∀ pointer, info.dliSname = some pointer →
    ∃ sym, SymbolAt host handle sym pointer ∧ sym.stShndx ≠ 0 ∧ sym.isTls = false ∧
      info.dliSaddr = handle.loadBias + sym.stValue ∧ info.dliSsize = sym.stSize ∧
      (addr - info.dliSaddr).toNat < info.dliSsize.toNat

theorem ElfSym.Covers.sub_lt {sym : ElfSym} {loadBias : BitVec 64}
    (hcovers : sym.Covers (addr - loadBias)) :
    (addr - (loadBias + sym.stValue)).toNat < sym.stSize.toNat := by
  have hsub : addr - (loadBias + sym.stValue) = addr - loadBias - sym.stValue := by
    rw [BitVec.sub_sub]
  have habove := BitVec.le_def.mp hcovers.above
  have hbelow := hcovers.below
  rw [hsub, BitVec.toNat_sub_of_le hcovers.above]
  omega

theorem Located.of_symbol {handle : XdlHandle} {sym : ElfSym} {pointer : NamePointer}
    (hcontains : handle.object.Contains addr) (hsymbol : SymbolAt host handle sym pointer)
    (hcovers : sym.Covers (addr - handle.loadBias)) :
    Located host addr handle (handle.infoOf sym pointer) where
  contains := hcontains
  fname := rfl
  fbase := rfl
  symbol other hother := by
    cases hother
    exact ⟨sym, hsymbol, hcovers.defined, hcovers.notTls, rfl, rfl, hcovers.sub_lt⟩

theorem ReportedBy.located {handle : XdlHandle} {info : XdlAddrInfo}
    (hreported : ReportedBy host addr handle info) : Located host addr handle info := by
  obtain ⟨hcontains, hreported⟩ := hreported
  unfold XdlHandle.reported at hreported
  obtain ⟨dynsym, hdynsym, hsearch⟩ := Option.bind_eq_some_iff.mp hreported
  obtain ⟨found, hfound, hinfo⟩ := Option.bind_eq_some_iff.mp hsearch
  cases found with
  | some sym =>
      cases hinfo
      obtain ⟨n, hsym, hmatch⟩ := Dynsym.exists_of_search hfound
      exact .of_symbol hcontains (.dynsym n hdynsym hsym) (ElfSym.covers_of_isMatch hmatch)
  | none =>
      obtain ⟨symtab, hsymtab, hmap⟩ := Option.bind_eq_some_iff.mp hinfo
      obtain ⟨found, hfound, rfl⟩ := Option.map_eq_some_iff.mp hmap
      cases found with
      | some sym =>
          obtain ⟨i, hsym, hmatch⟩ := Symtab.exists_of_search hfound
          exact .of_symbol hcontains (.symtab i hsymtab hsym) (ElfSym.covers_of_isMatch hmatch)
      | none => exact ⟨hcontains, rfl, rfl, fun _ hnone => by cases hnone⟩

/-- Over any sequence of lookups, every report locates its address in one of the
loaded objects and, if it has a name, in a defined symbol of that object. -/
theorem lookups_located (hobjects : loadedObjects host = some objects)
    {addrs : List (BitVec 64)} {cache : List XdlHandle} {answers : List (Option XdlAddrInfo)}
    (hrun : runFrom (xdlAddr host) [] addrs = some (cache, answers)) :
    List.Forall₂ (fun addr answer => ∀ info, answer = some info →
      ∃ handle : XdlHandle, handle.object ∈ objects ∧ Located host addr handle info)
      addrs answers := by
  refine runFrom_forall₂_invariant (CacheHolds host objects) _ ?_ (by simp [CacheHolds]) hrun
  intro cache addr next answer hcache hlookup
  obtain ⟨hnext, hreported⟩ := xdlAddr_step hobjects hcache hlookup
  refine ⟨hnext, fun info hinfo => ?_⟩
  obtain ⟨handle, hobject, _, hby⟩ := hreported info hinfo
  exact ⟨handle, hobject, hby.located⟩

/-! ## What there is is found -/

/-- The symbol reported for an offset into an object with these symbols. -/
def symbolFor (dynsyms symtabs : List ElfSym) (offset : BitVec 64) : Option (Bool × ElfSym) :=
  ((dynsyms.find? fun sym => xdlSymIsMatch sym offset false).map fun sym => (false, sym)).or
    ((symtabs.find? fun sym => xdlSymIsMatch sym offset true).map fun sym => (true, sym))

/-- The report for such a symbol. -/
def XdlHandle.reportFor (handle : XdlHandle) (dynsym : Dynsym) (symtab : Symtab) :
    Option (Bool × ElfSym) → XdlAddrInfo
  | some (false, sym) => handle.infoOf sym (dynsym.name sym)
  | some (true, sym) => handle.infoOf sym (symtab.name sym)
  | none => handle.info

/-- The tables of an object and their symbols. -/
structure HasSymbols (host : XdlHost) (handle : XdlHandle) (dynsym : Dynsym) (symtab : Symtab)
    (dynsyms symtabs : List ElfSym) : Prop where
  dynsymNow : handle.dynsymNow host = some dynsym
  symtabNow : handle.symtabNow host = some symtab
  dynsyms : dynsym.Holds host.memory dynsyms
  symtabs : symtab.Holds symtabs

/-- For an object with sound tables the report is the one of its first symbol
whose range has the address, or of none if there is none. -/
theorem xdlAddr_symbolFor (hobjects : loadedObjects host = some objects) (haddr : addr ≠ 0)
    {handle : XdlHandle} (hopened : objects.findSome? (xdlOpenByAddrIterateCb addr) = some handle)
    {dynsym : Dynsym} {symtab : Symtab} {dynsyms symtabs : List ElfSym}
    (hsymbols : HasSymbols host handle dynsym symtab dynsyms symtabs) :
    (xdlAddr host [] addr).map Prod.snd =
      some (some (handle.reportFor dynsym symtab
        (symbolFor dynsyms symtabs (addr - handle.loadBias)))) := by
  obtain ⟨object, _, hmade⟩ := List.exists_of_findSome?_eq_some hopened
  obtain ⟨name, _, _, _, rfl⟩ := xdlOpenByAddrIterateCb_eq_some.mp hmade
  have hreported : ((XdlHandle.create name object).describe host addr).map Prod.fst = _ :=
    XdlHandle.describe_reported (XdlHandle.create_upToDate name object)
  have hlookup : (xdlAddr host [] addr).map Prod.snd =
      (((XdlHandle.create name object).describe host addr).map Prod.fst).map some := by
    unfold xdlAddr
    rw [if_neg haddr, describeCached, Option.bind_some]
    dsimp only
    rw [xdlOpenByAddr_eq hobjects haddr, hopened, Option.bind_some]
    dsimp only
    rw [Option.map_map, Option.map_map]
    rfl
  rw [hlookup, hreported]
  unfold XdlHandle.reported symbolFor
  rw [hsymbols.dynsymNow, Option.bind_some, Dynsym.search_eq_find? hsymbols.dynsyms,
    Option.bind_some]
  cases dynsyms.find? fun sym => xdlSymIsMatch sym (addr - _) false with
  | some sym => rfl
  | none =>
      dsimp only
      rw [hsymbols.symtabNow, Option.bind_some, Symtab.search_eq_find? hsymbols.symtabs]
      cases symtabs.find? fun sym => xdlSymIsMatch sym (addr - _) true with
      | some sym => rfl
      | none => rfl

/-! ## Symbols of the sample -/

theorem lookups_located_foo :
    ∃ cache answers,
      runFrom (xdlAddr fooHost) [] [0x10510, 0x10700, 0x10610] = some (cache, answers) ∧
      answers.map (Option.map XdlAddrInfo.dliSsize) = [some 0x40, some 0, some 0x20] ∧
      List.Forall₂ (fun addr answer => ∀ info, answer = some info →
        ∃ handle : XdlHandle, handle.object ∈ [fooObject, bareObject] ∧
          Located fooHost addr handle info) [0x10510, 0x10700, 0x10610] answers := by
  obtain ⟨cache, answers, hrun, hsizes⟩ : ∃ cache answers,
      runFrom (xdlAddr fooHost) [] [0x10510, 0x10700, 0x10610] = some (cache, answers) ∧
      answers.map (Option.map XdlAddrInfo.dliSsize) = [some 0x40, some 0, some 0x20] :=
    ⟨_, _, rfl, by decide +kernel⟩
  exact ⟨cache, answers, hrun, hsizes, lookups_located fooHost_objects hrun⟩

/-- `foo` and `bar` as the hash table lists them. -/
def fooSymbols : List ElfSym := [⟨1, 0x12, 7, 0x500, 0x40⟩, ⟨5, 0x12, 7, 0x600, 0x20⟩]

theorem fooHandle_symbols :
    ∃ dynsym symtab,
      HasSymbols fooHost (.create "/data/libfoo.so".toList fooObject) dynsym symtab
        fooSymbols [] ∧ dynsym.dynstr = 0x100F0 := by
  refine ⟨_, _, ⟨rfl, rfl, ?_, rfl⟩, rfl⟩
  refine ⟨[1, 2], ?_, by decide +kernel⟩
  refine ⟨fun _ => [1, 2], ?_, rfl⟩
  intro i hi
  obtain rfl : i = 0 := Nat.lt_one_iff.mp hi
  exact ⟨1, by decide +kernel, .next (by decide +kernel) (.last (by decide +kernel))⟩

theorem xdlAddr_symbolFor_foo :
    (xdlAddr fooHost [] 0x10610).map Prod.snd =
      some (some ⟨"/data/libfoo.so".toList, 0x10000, some (.dynstr 0x100F5), 0x10600, 0x20⟩) := by
  obtain ⟨dynsym, symtab, hsymbols, hdynstr⟩ := fooHandle_symbols
  have hfound : (xdlAddr fooHost [] 0x10610).map Prod.snd = _ :=
    xdlAddr_symbolFor fooHost_objects (by decide) rfl hsymbols
  have hsym : symbolFor fooSymbols []
      (0x10610 - (XdlHandle.create "/data/libfoo.so".toList fooObject).loadBias) =
        some (false, ⟨5, 0x12, 7, 0x600, 0x20⟩) := by decide +kernel
  rw [hfound, hsym]
  simp [XdlHandle.reportFor, XdlHandle.infoOf, XdlHandle.info, XdlHandle.create, Dynsym.name,
    hdynstr, fooObject]

end GumTVM
