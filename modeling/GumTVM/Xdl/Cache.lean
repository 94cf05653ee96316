import GumTVM.Foundation.Machine
import GumTVM.Xdl.Handles

/-!
# Lookups that share a cache

Every handle in the cache was made for a loaded object. What a lookup reports is
therefore right whatever was looked up before, and it is what a lookup with an
empty cache reports as long as no two objects contain the same address.
-/

namespace GumTVM

open Foundation

variable {host : XdlHost} {objects : List DlPhdrInfo} {addr : BitVec 64}

/-! ## Opening by address -/

/-- An address lies in a load segment of the object. -/
def DlPhdrInfo.Contains (info : DlPhdrInfo) (addr : BitVec 64) : Prop :=
  xdlElfIsMatch info.dlpiAddr info.dlpiPhdr addr = true

theorem xdlOpenByAddr_eq (hobjects : loadedObjects host = some objects) (haddr : addr ≠ 0) :
    xdlOpenByAddr host addr = some (objects.findSome? (xdlOpenByAddrIterateCb addr)) := by
  unfold xdlOpenByAddr
  rw [if_neg haddr, xdlIteratePhdr_eq hobjects]
  exact searchList_eq_findSome? fun _ _ => rfl

/-- A handle is made for an object that contains the address. -/
theorem xdlOpenByAddrIterateCb_eq_some {info : DlPhdrInfo} {handle : XdlHandle} :
    xdlOpenByAddrIterateCb addr info = some handle ↔
      ∃ name, info.dlpiName = some name ∧ info.dlpiAddr ≠ 0 ∧ info.Contains addr ∧
        handle = .create name info := by
  unfold xdlOpenByAddrIterateCb DlPhdrInfo.Contains
  split
  · next hname => simp [hname]
  · next name hname =>
      split
      · next hzero => simp [hname, hzero]
      · next hnonzero =>
          split
          · next hmatch =>
              constructor
              · intro hhandle
                cases hhandle
                exact ⟨name, hname, hnonzero, hmatch, rfl⟩
              · rintro ⟨other, hother, _, _, rfl⟩
                cases hname.symm.trans hother
                rfl
          · next hmatch => simp [hmatch]

theorem XdlHandle.create_object {name : Text} {info : DlPhdrInfo}
    (hname : info.dlpiName = some name) : (create name info).object = info := by
  obtain ⟨dlpiAddr, dlpiName, dlpiPhdr⟩ := info
  cases hname
  rfl

/-! ## The cache -/

/-- Every cached handle stands for a loaded object. -/
def CacheHolds (host : XdlHost) (objects : List DlPhdrInfo) (cache : List XdlHandle) : Prop :=
  ∀ handle ∈ cache, handle.UpToDate host ∧ handle.object ∈ objects ∧ handle.loadBias ≠ 0

theorem CacheHolds.cons {cache : List XdlHandle} {handle : XdlHandle}
    (hhandle : handle.UpToDate host ∧ handle.object ∈ objects ∧ handle.loadBias ≠ 0)
    (hcache : CacheHolds host objects cache) : CacheHolds host objects (handle :: cache) := by
  intro other hother
  rcases List.mem_cons.mp hother with rfl | hrest
  · exact hhandle
  · exact hcache other hrest

theorem CacheHolds.replace {before after : List XdlHandle} {handle next : XdlHandle}
    (hnext : next.UpToDate host ∧ next.object ∈ objects ∧ next.loadBias ≠ 0)
    (hcache : CacheHolds host objects (before ++ handle :: after)) :
    CacheHolds host objects (before ++ next :: after) := by
  intro other hother
  rcases List.mem_append.mp hother with hbefore | hlater
  · exact hcache other (List.mem_append_left _ hbefore)
  · rcases List.mem_cons.mp hlater with rfl | hafter
    · exact hnext
    · exact hcache other (List.mem_append_right _ (List.mem_cons_of_mem _ hafter))

/-- A lookup in the cache is one of the first handle that contains the address,
which is put back where it was. -/
theorem describeCached_cases (host : XdlHost) (addr : BitVec 64) (cache : List XdlHandle) :
    ((∀ handle ∈ cache, handle.isMatch addr = false) ∧
        describeCached host addr cache = some none) ∨
      ∃ before handle after, cache = before ++ handle :: after ∧ handle.isMatch addr = true ∧
        describeCached host addr cache = (handle.describe host addr).map fun (info, next) =>
          some (info, before ++ next :: after) := by
  induction cache with
  | nil => exact Or.inl ⟨by simp, rfl⟩
  | cons handle rest ih =>
      unfold describeCached
      split
      · next hmatch => exact Or.inr ⟨[], handle, rest, rfl, hmatch, rfl⟩
      · next hmiss =>
          rcases ih with ⟨hnone, hrest⟩ | ⟨before, found, after, rfl, hmatch, hrest⟩
          · refine Or.inl ⟨?_, by rw [hrest]; rfl⟩
            intro other hother
            rcases List.mem_cons.mp hother with rfl | htail
            · exact eq_false_of_ne_true hmiss
            · exact hnone other htail
          · refine Or.inr ⟨handle :: before, found, after, rfl, hmatch, ?_⟩
            rw [hrest, Option.map_map]
            rfl

/-- Where a report comes from: an object that contains the address, as a handle
for it describes the address. -/
structure ReportedBy (host : XdlHost) (addr : BitVec 64) (handle : XdlHandle)
    (info : XdlAddrInfo) : Prop where
  contains : handle.object.Contains addr
  reported : handle.reported host addr = some info

/-- A handle that was opened for an address stands for an object that contains it. -/
theorem xdlOpenByAddr_handle (hobjects : loadedObjects host = some objects) (haddr : addr ≠ 0)
    {handle : XdlHandle} (hopened : xdlOpenByAddr host addr = some (some handle)) :
    (handle.UpToDate host ∧ handle.object ∈ objects ∧ handle.loadBias ≠ 0) ∧
      handle.object.Contains addr := by
  rw [xdlOpenByAddr_eq hobjects haddr] at hopened
  obtain ⟨object, hobject, hmade⟩ := List.exists_of_findSome?_eq_some (Option.some.inj hopened)
  obtain ⟨name, hname, hnonzero, hcontains, rfl⟩ := xdlOpenByAddrIterateCb_eq_some.mp hmade
  rw [XdlHandle.create_object hname]
  exact ⟨⟨XdlHandle.create_upToDate name object, hobject, hnonzero⟩, hcontains⟩

/-- Describing an address may load tables of the handle, but not change its object. -/
theorem describe_step {handle next : XdlHandle} {info : XdlAddrInfo}
    (hhandle : handle.UpToDate host ∧ handle.object ∈ objects ∧ handle.loadBias ≠ 0)
    (hcontains : handle.object.Contains addr)
    (hdescribe : handle.describe host addr = some (info, next)) :
    (next.UpToDate host ∧ next.object ∈ objects ∧ next.loadBias ≠ 0) ∧
      ReportedBy host addr handle info := by
  obtain ⟨hdate, hobject, hnonzero⟩ := hhandle
  obtain ⟨hnextDate, hnextObject⟩ := XdlHandle.describe_upToDate hdate hdescribe
  have hbias : next.loadBias = handle.loadBias := congrArg DlPhdrInfo.dlpiAddr hnextObject
  refine ⟨⟨hnextDate, hnextObject ▸ hobject, hbias ▸ hnonzero⟩, hcontains, ?_⟩
  rw [← XdlHandle.describe_reported hdate, hdescribe, Option.map_some]

/-- What one lookup does: it keeps the cache right, and what it reports comes
from a loaded object. -/
theorem xdlAddr_step (hobjects : loadedObjects host = some objects) {cache next : List XdlHandle}
    {answer : Option XdlAddrInfo} (hcache : CacheHolds host objects cache)
    (hlookup : xdlAddr host cache addr = some (next, answer)) :
    CacheHolds host objects next ∧ ∀ info, answer = some info →
      ∃ handle : XdlHandle, handle.object ∈ objects ∧ handle.loadBias ≠ 0 ∧
        ReportedBy host addr handle info := by
  unfold xdlAddr at hlookup
  split at hlookup
  · cases hlookup
    exact ⟨hcache, by simp⟩
  · next haddr =>
      obtain ⟨cached, hcached, hanswer⟩ := Option.bind_eq_some_iff.mp hlookup
      rcases describeCached_cases host addr cache with
        ⟨_, hmiss⟩ | ⟨before, handle, after, rfl, hmatch, hhit⟩
      · rw [hmiss] at hcached
        cases hcached
        obtain ⟨opened, hopened, hdescribed⟩ := Option.bind_eq_some_iff.mp hanswer
        cases opened with
        | none =>
            cases hdescribed
            exact ⟨hcache, by simp⟩
        | some handle =>
            obtain ⟨⟨info, described⟩, hdescribe, heq⟩ := Option.map_eq_some_iff.mp hdescribed
            cases heq
            obtain ⟨hhandle, hcontains⟩ := xdlOpenByAddr_handle hobjects haddr hopened
            obtain ⟨hdescribed, hreported⟩ := describe_step hhandle hcontains hdescribe
            refine ⟨hcache.cons hdescribed, ?_⟩
            rintro _ ⟨rfl⟩
            exact ⟨handle, hhandle.2.1, hhandle.2.2, hreported⟩
      · rw [hhit] at hcached
        obtain ⟨⟨info, described⟩, hdescribe, heq⟩ := Option.map_eq_some_iff.mp hcached
        cases heq
        cases hanswer
        have hhandle := hcache handle (by simp)
        obtain ⟨hdescribed, hreported⟩ := describe_step hhandle hmatch hdescribe
        refine ⟨hcache.replace hdescribed, ?_⟩
        rintro _ ⟨rfl⟩
        exact ⟨handle, hhandle.2.1, hhandle.2.2, hreported⟩

/-! ## Sharing the cache -/

/-- No address lies in two of the objects. -/
def Apart (objects : List DlPhdrInfo) : Prop :=
  ∀ addr, ∀ first ∈ objects, ∀ second ∈ objects,
    first.Contains addr → second.Contains addr → first = second

/-- If objects are apart, the handle that a new lookup would open reports what
any handle for an object with the address reports. -/
theorem exists_opened (hapart : Apart objects) {handle : XdlHandle}
    (hobject : handle.object ∈ objects) (hnonzero : handle.loadBias ≠ 0)
    (hcontains : handle.object.Contains addr) :
    ∃ made : XdlHandle, objects.findSome? (xdlOpenByAddrIterateCb addr) = some made ∧
      made.UpToDate host ∧ made.reported host addr = handle.reported host addr := by
  have hopens : (objects.findSome? (xdlOpenByAddrIterateCb addr)).isSome := by
    rw [List.findSome?_isSome_iff]
    refine ⟨handle.object, hobject, ?_⟩
    exact Option.isSome_iff_exists.mpr
      ⟨_, xdlOpenByAddrIterateCb_eq_some.mpr ⟨_, rfl, hnonzero, hcontains, rfl⟩⟩
  obtain ⟨made, hmade⟩ := Option.isSome_iff_exists.mp hopens
  obtain ⟨object, hother, hopened⟩ := List.exists_of_findSome?_eq_some hmade
  obtain ⟨name, hname, _, hotherContains, rfl⟩ := xdlOpenByAddrIterateCb_eq_some.mp hopened
  refine ⟨.create name object, hmade, XdlHandle.create_upToDate name object, ?_⟩
  apply XdlHandle.reported_congr
  rw [XdlHandle.create_object hname]
  exact hapart addr _ hother _ hobject hotherContains hcontains

/-- If objects are apart, a cached handle reports what a new one would. -/
theorem xdlAddr_uncached (hobjects : loadedObjects host = some objects) (hapart : Apart objects)
    {cache fresh : List XdlHandle} {answer : Option XdlAddrInfo}
    (hcache : CacheHolds host objects cache)
    (hfresh : xdlAddr host [] addr = some (fresh, answer)) :
    ∃ next, xdlAddr host cache addr = some (next, answer) := by
  unfold xdlAddr at hfresh ⊢
  split at hfresh
  · next hzero =>
      cases hfresh
      exact ⟨cache, if_pos hzero⟩
  · next haddr =>
      rw [if_neg haddr]
      rw [describeCached, Option.bind_some] at hfresh
      obtain ⟨opened, hopened, hdescribed⟩ := Option.bind_eq_some_iff.mp hfresh
      rcases describeCached_cases host addr cache with
        ⟨_, hmiss⟩ | ⟨before, handle, after, rfl, hmatch, hhit⟩
      · rw [hmiss, Option.bind_some]
        dsimp only
        rw [hopened, Option.bind_some]
        cases opened with
        | none =>
            cases hdescribed
            exact ⟨cache, rfl⟩
        | some handle =>
            obtain ⟨⟨info, described⟩, hdescribe, heq⟩ := Option.map_eq_some_iff.mp hdescribed
            cases heq
            dsimp only
            exact ⟨described :: cache, by rw [hdescribe, Option.map_some]⟩
      · obtain ⟨hdate, hobject, hnonzero⟩ := hcache handle (by simp)
        obtain ⟨made, hmade, hmadeDate, hsame⟩ :=
          @exists_opened host _ _ hapart _ hobject hnonzero hmatch
        rw [xdlOpenByAddr_eq hobjects haddr, hmade] at hopened
        cases hopened
        obtain ⟨⟨info, described⟩, hdescribe, heq⟩ := Option.map_eq_some_iff.mp hdescribed
        cases heq
        have hreported : (handle.describe host addr).map Prod.fst = some info := by
          rw [XdlHandle.describe_reported hdate, ← hsame,
            ← XdlHandle.describe_reported hmadeDate, hdescribe, Option.map_some]
        obtain ⟨⟨_, next⟩, hnext, rfl⟩ := Option.map_eq_some_iff.mp hreported
        exact ⟨before ++ next :: after, by rw [hhit, hnext]; rfl⟩

/-- Over any sequence of lookups the cache makes no difference to what they
report. -/
theorem lookups_uncached (hobjects : loadedObjects host = some objects) (hapart : Apart objects)
    {addrs : List (BitVec 64)} {answers : List (Option XdlAddrInfo)}
    (hfresh : addrs.mapM (fun addr => (xdlAddr host [] addr).map Prod.snd) = some answers) :
    ∃ cache, runFrom (xdlAddr host) [] addrs = some (cache, answers) := by
  have hrun (cache : List XdlHandle) (hcache : CacheHolds host objects cache) :
      ∃ last, runFrom (xdlAddr host) cache addrs = some (last, answers) := by
    induction addrs generalizing answers cache with
    | nil =>
        cases hfresh
        exact ⟨cache, rfl⟩
    | cons addr rest ih =>
        rw [List.mapM_cons] at hfresh
        obtain ⟨answer, hanswer, hrest⟩ := Option.bind_eq_some_iff.mp hfresh
        obtain ⟨later, hlater, hcons⟩ := Option.bind_eq_some_iff.mp hrest
        cases hcons
        obtain ⟨⟨fresh, _⟩, hlookup, rfl⟩ := Option.map_eq_some_iff.mp hanswer
        obtain ⟨next, hnext⟩ := xdlAddr_uncached hobjects hapart hcache hlookup
        obtain ⟨last, hlast⟩ := ih hlater next (xdlAddr_step hobjects hcache hnext).1
        exact ⟨last, runFrom_cons_eq_some.mpr ⟨next, _, later, hnext, hlast, rfl⟩⟩
  exact hrun [] (by simp [CacheHolds])

/-! ## Two objects -/

/-- A function symbol of the section with index 7. -/
def symBytes (stName stValue stSize : Nat) : List Byte :=
  littleEndianBytes 4 stName ++ [0x12, 0] ++ littleEndianBytes 2 7 ++
    littleEndianBytes 8 stValue ++ littleEndianBytes 8 stSize

/-- A header of zeros, the dynamic segment, a GNU hash table with one bucket, the
symbols `foo` and `bar`, and their names. -/
def fooImage : List Byte :=
  List.replicate 0x40 0 ++
    [6, 0xA8, 5, 0xF0, 0x6FFFFEF5, 0x80, 0, 0].flatMap (littleEndianBytes 8) ++
    [1, 1, 1, 0, 0, 0, 1, 2, 3, 0].flatMap (littleEndianBytes 4) ++
    (List.replicate ElfSym.size 0 ++ symBytes 1 0x500 0x40 ++ symBytes 5 0x600 0x20) ++
    ([0] ++ cLiteral "foo".toList ++ cLiteral "bar".toList)

def fooObject : DlPhdrInfo where
  dlpiAddr := 0x10000
  dlpiName := some "/data/libfoo.so".toList
  dlpiPhdr := [⟨ptLoad, 0, 0x1000⟩, ⟨ptDynamic, 0x40, 0x40⟩]

/-- An object without symbols. -/
def bareObject : DlPhdrInfo where
  dlpiAddr := 0x20000
  dlpiName := some "/data/libbare.so".toList
  dlpiPhdr := [⟨ptLoad, 0, 0x1000⟩]

def fooHost : XdlHost where
  memory address := fooImage[(address - 0x10000).toNat]?
  auxvBase := 0
  dlIteratePhdr := [fooObject, bareObject]
  maps := []
  openFile _ := none
  lzmaDecompress _ := none

theorem fooHost_objects : loadedObjects fooHost = some [fooObject, bareObject] := rfl

theorem fooHost_apart : Apart [fooObject, bareObject] := by
  have hfoo {addr : BitVec 64} (hcontains : fooObject.Contains addr) : addr < 0x20000 := by
    simp [DlPhdrInfo.Contains, xdlElfIsMatch, fooObject, ptLoad, ptDynamic] at hcontains
    bv_omega
  have hbare {addr : BitVec 64} (hcontains : bareObject.Contains addr) : 0x20000 ≤ addr := by
    simp [DlPhdrInfo.Contains, xdlElfIsMatch, bareObject] at hcontains
    exact hcontains.1
  intro addr first hfirst second hsecond hfirstContains hsecondContains
  rcases List.mem_pair.mp hfirst with rfl | rfl <;>
    rcases List.mem_pair.mp hsecond with rfl | rfl
  · rfl
  · exact absurd (hbare hsecondContains) (BitVec.not_le.mpr (hfoo hfirstContains))
  · exact absurd (hbare hfirstContains) (BitVec.not_le.mpr (hfoo hsecondContains))
  · rfl

theorem lookups_uncached_foo :
    ∃ cache answers,
      runFrom (xdlAddr fooHost) [] [0x10510, 0x20010, 0x10610, 0x30000] = some (cache, answers) ∧
      answers.map (Option.map XdlAddrInfo.dliSaddr) =
        [some 0x10500, some 0, some 0x10600, none] := by
  obtain ⟨answers, hfresh, hsaddr⟩ : ∃ answers,
      [0x10510, 0x20010, 0x10610, 0x30000].mapM
        (fun addr => (xdlAddr fooHost [] addr).map Prod.snd) = some answers ∧
      answers.map (Option.map XdlAddrInfo.dliSaddr) =
        [some 0x10500, some 0, some 0x10600, none] := ⟨_, rfl, by decide +kernel⟩
  obtain ⟨cache, hrun⟩ := lookups_uncached fooHost_objects fooHost_apart hfresh
  exact ⟨cache, answers, hrun, hsaddr⟩

end GumTVM
