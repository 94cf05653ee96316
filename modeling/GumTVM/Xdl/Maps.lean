import GumTVM.Foundation.Scan
import GumTVM.Xdl.Tables

/-!
# The file of a mapped object

An object that the linker knows by a relative name gets its symbol table from the
file mapped where the object starts. The path of this file is searched in
`/proc/self/maps`: the text is read line by line, the range of each line is
scanned, and the path is what follows the first slash of the line.
-/

namespace GumTVM

open Foundation

/-! ## Reading the text -/

/-- `xdl_util_trim_ending` -/
def xdlUtilTrimEnding (start : Text) : Text := start.rdropWhile isSpace

/-- The range of a line, if `sscanf` converts both numbers. The letter `r` of the
format stands after them, so a line without it converts as well. -/
def sscanfRange (line : Text) : Option (BitVec 64 × BitVec 64) :=
  (scanHex line).bind fun (start, rest) =>
    match rest with
    | '-' :: rest => (scanHex rest).map fun (stop, _) => (start, stop)
    | _ => none

/-- The loop of `xdl_iterate_get_pathname_from_maps` over the lines read. -/
def pathnameFromLines (base : BitVec 64) : List Text → Option Text
  | [] => none
  | line :: lines =>
      match sscanfRange (upToTerminator line) with
      | none => pathnameFromLines base lines
      | some (start, stop) =>
          if base < start then none
          else if base ≥ stop then pathnameFromLines base lines
          else (strchr (upToTerminator line) '/').map xdlUtilTrimEnding

/-- `xdl_iterate_get_pathname_from_maps`, given the text of `/proc/self/maps` if
it can be opened. -/
def xdlIterateGetPathnameFromMaps (base : BitVec 64) (bufLen : Nat) (maps : Option Text) :
    Option Text :=
  maps.bind fun text =>
    (pathnameFromLines base (fgetsLines 1024 text)).map fun pathname =>
      pathname.take (bufLen - 1)

/-! ## The lines as ranges with paths -/

def MapsLine.ofLine (line : Text) : Option MapsLine :=
  (sscanfRange (upToTerminator line)).map fun (start, stop) =>
    ⟨start, stop, (strchr (upToTerminator line) '/').map xdlUtilTrimEnding⟩

def mapsLines (text : Text) : List MapsLine :=
  (fgetsLines 1024 text).filterMap MapsLine.ofLine

theorem pathnameFromLines_eq (base : BitVec 64) (lines : List Text) :
    pathnameFromLines base lines =
      xdlIterateGetFullPathname base (lines.filterMap MapsLine.ofLine) := by
  induction lines with
  | nil => rfl
  | cons line lines ih =>
      unfold pathnameFromLines
      cases hrange : sscanfRange (upToTerminator line) with
      | none =>
          have hnone : MapsLine.ofLine line = none := by
            unfold MapsLine.ofLine
            rw [hrange, Option.map_none]
          rw [List.filterMap_cons_none hnone]
          exact ih
      | some range =>
          obtain ⟨start, stop⟩ := range
          have hsome : MapsLine.ofLine line =
              some ⟨start, stop, (strchr (upToTerminator line) '/').map xdlUtilTrimEnding⟩ := by
            unfold MapsLine.ofLine
            rw [hrange, Option.map_some]
          rw [List.filterMap_cons_some hsome, xdlIterateGetFullPathname]
          dsimp only
          rw [ih]

theorem length_xdlUtilTrimEnding_le (start : Text) :
    (xdlUtilTrimEnding start).length ≤ start.length :=
  (List.rdropWhile_prefix isSpace start).length_le

theorem length_strchr_le {text found : Text} {c : Char} (hfound : strchr text c = some found) :
    found.length ≤ text.length := by
  unfold strchr at hfound
  dsimp only at hfound
  split at hfound
  · cases hfound
  · obtain rfl := Option.some.inj hfound
    exact (List.dropWhile_suffix _).length_le

/-- A path is shorter than the buffer its line was read into. -/
theorem length_of_pathnameFromLines {base : BitVec 64} {size : Nat} {lines : List Text}
    {pathname : Text} (hlines : ∀ line ∈ lines, line.length < size)
    (hfound : pathnameFromLines base lines = some pathname) : pathname.length < size := by
  induction lines with
  | nil => cases hfound
  | cons line lines ih =>
      have hlater := ih fun other hother => hlines other (List.mem_cons_of_mem _ hother)
      unfold pathnameFromLines at hfound
      split at hfound
      · exact hlater hfound
      · split at hfound
        · cases hfound
        · split at hfound
          · exact hlater hfound
          · obtain ⟨found, hslash, rfl⟩ := Option.map_eq_some_iff.mp hfound
            have hline : line.length < size := hlines line List.mem_cons_self
            have hstring : (upToTerminator line).length ≤ line.length :=
              (List.takeWhile_prefix _).length_le
            have htrimmed := length_xdlUtilTrimEnding_le found
            have hsuffix := length_strchr_le hslash
            omega

/-- For the buffer of `xdl_symtab_load` the search over the text is the search
over its ranges: no path is cut. -/
theorem xdlIterateGetPathnameFromMaps_eq (base : BitVec 64) (text : Text) :
    xdlIterateGetPathnameFromMaps base 1024 (some text) =
      xdlIterateGetFullPathname base (mapsLines text) := by
  unfold xdlIterateGetPathnameFromMaps mapsLines
  rw [Option.bind_some, ← pathnameFromLines_eq]
  cases hfound : pathnameFromLines base (fgetsLines 1024 text) with
  | none => rfl
  | some pathname =>
      have hlength : pathname.length < 1024 :=
        length_of_pathnameFromLines (fun _ => length_of_mem_fgetsLines (by decide)) hfound
      rw [Option.map_some, List.take_of_length_le (by omega)]

/-! ## The text of some mappings -/

/-- A mapped range with what the kernel shows of it on its line. -/
structure Mapping where
  start : BitVec 64
  stop : BitVec 64
  /-- Permissions, offset, device and inode, up to the column of the name. -/
  attributes : Text
  /-- The path of the mapped file, or what stands in its place. -/
  name : Text
  nonempty : start < stop
  attributes_plain : ∀ c ∈ attributes, c ≠ '/' ∧ c ≠ '\n' ∧ c ≠ '\x00'
  name_plain : ∀ c ∈ name, c ≠ '\n' ∧ c ≠ '\x00'

namespace Mapping

/-- An address on a line. -/
def numeral (address : BitVec 64) : Text := (hex address.toNat).leftpad 8 '0'

def line (mapping : Mapping) : Text :=
  numeral mapping.start ++ '-' ::
    (numeral mapping.stop ++ ' ' :: (mapping.attributes ++ mapping.name))

def Contains (mapping : Mapping) (address : BitVec 64) : Prop :=
  mapping.start ≤ address ∧ address < mapping.stop

/-- The name from its first slash on, without white space at its end. -/
def pathname (mapping : Mapping) : Option Text :=
  (strchr mapping.name '/').map xdlUtilTrimEnding

/-- The file `/proc/self/maps` of a process with these mappings. -/
def maps (mappings : List Mapping) : Text := terminated '\n' (mappings.map line)

/-- The mappings stand in the order of their addresses and do not overlap, and
each line fits into the buffer it is read into. -/
structure Listed (mappings : List Mapping) : Prop where
  sorted : mappings.Pairwise fun lower upper => lower.stop ≤ upper.start
  fits : ∀ mapping ∈ mappings, mapping.line.length + 1 < 1024

/-! ## Reading a line back -/

theorem scanHex_numeral_append (address : BitVec 64) {c : Char} (hc : isScanDigit c = false)
    (hx : c.toLower ≠ 'x') (rest : Text) :
    scanHex (numeral address ++ c :: rest) = some (address, c :: rest) := by
  have hne : numeral address ≠ [] := by
    intro hnil
    have hlength : 8 ≤ (numeral address).length := by
      rw [numeral, List.length_leftpad]
      exact Nat.le_max_left _ _
    rw [hnil] at hlength
    cases hlength
  have hdigits : ∀ d ∈ numeral address, isHexDigit d = true :=
    fun _ => isHexDigit_of_mem_leftpad
  have hread : readHex (numeral address) = some address.toNat := readHex_leftpad _ _
  rw [scanHex_numeral hdigits hne hread address.isLt hc hx, BitVec.ofNat_toNat,
    BitVec.setWidth_eq]

theorem sscanfRange_line_append (mapping : Mapping) (rest : Text) :
    sscanfRange (mapping.line ++ rest) = some (mapping.start, mapping.stop) := by
  unfold sscanfRange line
  rw [List.append_assoc, List.cons_append, scanHex_numeral_append _ rfl (by decide),
    Option.bind_some]
  show (scanHex _).map _ = _
  rw [List.append_assoc, List.cons_append, scanHex_numeral_append _ rfl (by decide),
    Option.map_some]

theorem not_mem_numeral {address : BitVec 64} {c : Char} (hc : isHexDigit c = false) :
    c ∉ numeral address := by
  intro hmem
  rw [isHexDigit_of_mem_leftpad hmem] at hc
  cases hc

/-- What a character of a line is, if it is no part of a number. -/
theorem not_mem_line {mapping : Mapping} {c : Char} (hdigit : isHexDigit c = false)
    (hdash : c ≠ '-') (hblank : c ≠ ' ') (hattributes : c ∉ mapping.attributes)
    (hname : c ∉ mapping.name) : c ∉ mapping.line := by
  unfold line
  simp only [List.mem_append, List.mem_cons, not_or]
  exact ⟨not_mem_numeral hdigit, hdash, not_mem_numeral hdigit, hblank, hattributes, hname⟩

theorem newline_not_mem_line (mapping : Mapping) : '\n' ∉ mapping.line :=
  not_mem_line rfl (by decide) (by decide)
    (fun hmem => (mapping.attributes_plain _ hmem).2.1 rfl)
    fun hmem => (mapping.name_plain _ hmem).1 rfl

theorem upToTerminator_line (mapping : Mapping) :
    upToTerminator (mapping.line ++ ['\n']) = mapping.line ++ ['\n'] := by
  refine upToTerminator_eq_self fun hmem => ?_
  rcases List.mem_append.mp hmem with hline | hnewline
  · exact not_mem_line rfl (by decide) (by decide)
      (fun hmem => (mapping.attributes_plain _ hmem).2.2 rfl)
      (fun hmem => (mapping.name_plain _ hmem).2 rfl) hline
  · exact absurd (List.mem_singleton.mp hnewline) (by decide)

/-- The first slash of a line is the one of its name. -/
theorem strchr_line (mapping : Mapping) : strchr mapping.line '/' = strchr mapping.name '/' := by
  have hattributes : '/' ∉ mapping.attributes :=
    fun hmem => (mapping.attributes_plain _ hmem).1 rfl
  have hbefore : '/' ∉ numeral mapping.start ++ '-' ::
      (numeral mapping.stop ++ ' ' :: mapping.attributes) := by
    simp only [List.mem_append, List.mem_cons, not_or]
    exact ⟨not_mem_numeral rfl, by decide, not_mem_numeral rfl, by decide, hattributes⟩
  rw [← strchr_append hbefore mapping.name]
  unfold line
  simp only [List.append_assoc, List.cons_append]

theorem ofLine_line (mapping : Mapping) :
    MapsLine.ofLine (mapping.line ++ ['\n']) =
      some ⟨mapping.start, mapping.stop, mapping.pathname⟩ := by
  have htrim : ∀ text : Text, xdlUtilTrimEnding (text ++ ['\n']) = xdlUtilTrimEnding text :=
    fun text => List.rdropWhile_concat_pos isSpace text '\n' rfl
  unfold MapsLine.ofLine pathname
  rw [upToTerminator_line, sscanfRange_line_append, Option.map_some,
    strchr_append_of_not_mem (by decide), strchr_line, Option.map_map]
  simp only [Function.comp_def, htrim]

theorem mapsLines_maps {mappings : List Mapping}
    (hfits : ∀ mapping ∈ mappings, mapping.line.length + 1 < 1024) :
    mapsLines (maps mappings) = mappings.map fun mapping =>
      ⟨mapping.start, mapping.stop, mapping.pathname⟩ := by
  have hlines : fgetsLines 1024 (maps mappings) =
      (mappings.map line).map fun line => line ++ ['\n'] := by
    refine fgetsLines_terminated fun text htext => ?_
    obtain ⟨mapping, hmapping, rfl⟩ := List.mem_map.mp htext
    exact ⟨newline_not_mem_line mapping, hfits mapping hmapping⟩
  unfold mapsLines
  rw [hlines, List.map_map, List.filterMap_map]
  simp only [Function.comp_def, ofLine_line]
  exact congrFun List.filterMap_eq_map mappings

/-! ## The path of a mapping -/

/-- An address behind a mapping is in no mapping before it. -/
theorem not_contains_of_sorted {mapping : Mapping} {mappings : List Mapping}
    (hlater : ∀ upper ∈ mappings, mapping.stop ≤ upper.start) {base : BitVec 64}
    (hbase : base < mapping.stop) : ∀ upper ∈ mappings, ¬ upper.Contains base := by
  intro upper hupper hcontains
  exact BitVec.not_lt.mpr (BitVec.le_trans (hlater upper hupper) hcontains.1) hbase

theorem xdlIterateGetFullPathname_eq_some_iff {mappings : List Mapping}
    (hsorted : mappings.Pairwise fun lower upper => lower.stop ≤ upper.start)
    (base : BitVec 64) (path : Text) :
    xdlIterateGetFullPathname base (mappings.map fun mapping =>
        ⟨mapping.start, mapping.stop, mapping.pathname⟩) = some path ↔
      ∃ mapping ∈ mappings, mapping.Contains base ∧ mapping.pathname = some path := by
  induction mappings with
  | nil => simp [xdlIterateGetFullPathname]
  | cons mapping mappings ih =>
      obtain ⟨hlater, hsorted⟩ := List.pairwise_cons.mp hsorted
      rw [List.map_cons, xdlIterateGetFullPathname, List.exists_mem_cons_iff]
      dsimp only
      split
      · next hbelow =>
          have hstop : base < mapping.stop :=
            BitVec.lt_trans hbelow mapping.nonempty
          constructor
          · intro hnone
            cases hnone
          · rintro (⟨hcontains, -⟩ | ⟨upper, hupper, hcontains, -⟩)
            · exact absurd hbelow (BitVec.not_lt.mpr hcontains.1)
            · exact absurd hcontains (not_contains_of_sorted hlater hstop upper hupper)
      · next hbelow =>
          split
          · next habove =>
              rw [ih hsorted]
              constructor
              · exact Or.inr
              · rintro (⟨hcontains, -⟩ | hfound)
                · exact absurd hcontains.2 (BitVec.not_lt.mpr habove)
                · exact hfound
          · next habove =>
              have hstop : base < mapping.stop := BitVec.not_le.mp habove
              constructor
              · intro hpath
                exact Or.inl ⟨⟨BitVec.not_lt.mp hbelow, hstop⟩, hpath⟩
              · rintro (⟨-, hpath⟩ | ⟨upper, hupper, hcontains, -⟩)
                · exact hpath
                · exact absurd hcontains (not_contains_of_sorted hlater hstop upper hupper)

end Mapping

/-- An object with a relative name that is in no library directory gets its
symbols from the file mapped where it starts. -/
theorem openObject_mapped {host : XdlHost} {mappings : List Mapping}
    (hlisted : Mapping.Listed mappings) (hmaps : host.maps = mapsLines (Mapping.maps mappings))
    {pathname : Text} (hrelative : pathname.head? ≠ some '/')
    (hmissing : host.openFile (xdlLibPath ++ ['/'] ++ pathname) = none) (base : BitVec 64)
    (file : List Byte) :
    openObject host pathname base = some file ↔
      ∃ mapping ∈ mappings, mapping.Contains base ∧
        ∃ path, mapping.pathname = some path ∧ host.openFile path = some file := by
  unfold openObject
  rw [if_neg hrelative, hmissing, hmaps, Mapping.mapsLines_maps hlisted.fits]
  dsimp only
  rw [Option.bind_eq_some_iff]
  constructor
  · rintro ⟨path, hpath, hfile⟩
    obtain ⟨mapping, hmapping, hcontains, hname⟩ :=
      (Mapping.xdlIterateGetFullPathname_eq_some_iff hlisted.sorted base path).mp hpath
    exact ⟨mapping, hmapping, hcontains, path, hname, hfile⟩
  · rintro ⟨mapping, hmapping, hcontains, path, hname, hfile⟩
    exact ⟨path, (Mapping.xdlIterateGetFullPathname_eq_some_iff hlisted.sorted base path).mpr
      ⟨mapping, hmapping, hcontains, hname⟩, hfile⟩

/-- Over the text of some mappings the search finds the path of the one mapping
that contains the address, whatever its permissions are, and no other. So that
file is opened for an object whose relative name is in no library directory. -/
theorem pathname_mapped {mappings : List Mapping} (hlisted : Mapping.Listed mappings)
    (base : BitVec 64) :
    (∀ path, xdlIterateGetPathnameFromMaps base 1024 (some (Mapping.maps mappings)) = some path ↔
      ∃ mapping ∈ mappings, mapping.Contains base ∧ mapping.pathname = some path) ∧
    ∀ (host : XdlHost) (pathname : Text), host.maps = mapsLines (Mapping.maps mappings) →
      pathname.head? ≠ some '/' → host.openFile (xdlLibPath ++ ['/'] ++ pathname) = none →
      ∀ file, openObject host pathname base = some file ↔
        ∃ mapping ∈ mappings, mapping.Contains base ∧
          ∃ path, mapping.pathname = some path ∧ host.openFile path = some file := by
  refine ⟨?_, ?_⟩
  · intro path
    rw [xdlIterateGetPathnameFromMaps_eq, Mapping.mapsLines_maps hlisted.fits]
    exact Mapping.xdlIterateGetFullPathname_eq_some_iff hlisted.sorted base path
  · intro host pathname hmaps hrelative hmissing file
    exact openObject_mapped hlisted hmaps hrelative hmissing base file

/-- A library and the gap behind it, which nobody may read. -/
def twoMappings : List Mapping :=
  [{ start := 0x7000
     stop := 0x9000
     attributes := "r-xp 00000000 fd:03 612 ".toList
     name := "/lib/a.so".toList
     nonempty := by decide
     attributes_plain := by simp
     name_plain := by simp },
   { start := 0x9000
     stop := 0xa000
     attributes := "---p 00002000 fd:03 612 ".toList
     name := "/lib/gap.so".toList
     nonempty := by decide
     attributes_plain := by simp
     name_plain := by simp }]

/-- A process with these mappings, in which the second file can be opened. -/
def gapHost : XdlHost where
  memory _ := none
  auxvBase := 0
  dlIteratePhdr := []
  maps := mapsLines (Mapping.maps twoMappings)
  openFile path := if path = "/lib/gap.so".toList then some [0x7F] else none
  lzmaDecompress := some

theorem pathname_mapped_unreadable :
    xdlIterateGetPathnameFromMaps 0x9010 1024 (some (Mapping.maps twoMappings)) =
        some "/lib/gap.so".toList ∧
      openObject gapHost "gap.so".toList 0x9010 = some [0x7F] := by
  have hlisted : Mapping.Listed twoMappings := ⟨by decide, by decide⟩
  obtain ⟨hpath, hfile⟩ := pathname_mapped hlisted 0x9010
  have hmapping : ∃ mapping ∈ twoMappings, mapping.Contains 0x9010 ∧
      mapping.pathname = some "/lib/gap.so".toList :=
    ⟨_, List.mem_cons_of_mem _ List.mem_cons_self, ⟨by decide, by decide⟩, by decide⟩
  obtain ⟨mapping, hmem, hcontains, hname⟩ := hmapping
  refine ⟨(hpath _).mpr ⟨mapping, hmem, hcontains, hname⟩, ?_⟩
  exact (hfile gapHost "gap.so".toList rfl (by decide) (by decide) [0x7F]).mpr
    ⟨mapping, hmem, hcontains, _, hname, by decide⟩

end GumTVM
