import GumTVM.Xdl.Tables
import Mathlib.Data.FinEnum

/-!
# The symbols of a table

A hash table lists its symbols bucket by bucket, each bucket as the chain that
starts there. A search finds the first symbol of that list that matches; and
whatever the table holds, a symbol that is found matches.
-/

namespace GumTVM

open Foundation

/-! ## Matching -/

/-- The symbol is defined, is no thread-local and has the offset in its range,
which does not wrap. -/
structure ElfSym.Covers (sym : ElfSym) (offset : BitVec 64) : Prop where
  defined : sym.stShndx ≠ 0
  notTls : sym.isTls = false
  above : sym.stValue ≤ offset
  below : offset.toNat < sym.stValue.toNat + sym.stSize.toNat

theorem ElfSym.covers_of_isMatch {sym : ElfSym} {offset : BitVec 64} {isSymtab : Bool}
    (hmatch : xdlSymIsMatch sym offset isSymtab = true) : sym.Covers offset := by
  unfold xdlSymIsMatch at hmatch
  split at hmatch
  · cases hmatch
  · next hexport =>
      split at hmatch
      · cases hmatch
      · next htls =>
          simp only [ge_iff_le, Bool.and_eq_true, decide_eq_true_eq] at hmatch
          obtain ⟨habove, hbelow⟩ := hmatch
          have hdefined : sym.stShndx ≠ 0 := by
            rintro hundef
            rw [hundef] at hexport
            exact hexport (by cases isSymtab <;> rfl)
          refine ⟨hdefined, eq_false_of_ne_true htls, habove, ?_⟩
          rw [BitVec.lt_def, BitVec.toNat_add] at hbelow
          rw [BitVec.le_def] at habove
          have hvalue := sym.stValue.isLt
          have hsize := sym.stSize.isLt
          omega

/-! ## The dynamic symbol table -/

namespace Dynsym

variable {memory : Memory} {tables : Dynsym} {offset : BitVec 64}

/-- The indices in the bucket of a GNU hash table. -/
def BucketHolds (memory : Memory) (tables : Dynsym) (i : Nat) (indices : List (BitVec 32)) :
    Prop :=
  ∃ n, tables.bucketAt memory i = some n ∧
    if n < tables.gnuHash.symoffset then indices = [] else Chain (tables.advance memory) n indices

/-- The indices that the table in use lists, in the order they are searched. -/
def Lists (memory : Memory) (tables : Dynsym) (indices : List (BitVec 32)) : Prop :=
  if tables.gnuHash.bucketsCnt > 0 then
    ∃ buckets : Nat → List (BitVec 32),
      (∀ i < tables.gnuHash.bucketsCnt.toNat, tables.BucketHolds memory i (buckets i)) ∧
        indices = (List.range tables.gnuHash.bucketsCnt.toNat).flatMap buckets
  else indices = (List.range tables.sysvHash.chainsCnt.toNat).map (BitVec.ofNat 32)

/-- The symbols that the table in use lists, none if the table was not loaded. -/
def Holds (memory : Memory) (tables : Dynsym) (symbols : List ElfSym) : Prop :=
  if tables.dynsym = 0 then symbols = []
  else ∃ indices, tables.Lists memory indices ∧ indices.mapM (tables.symAt memory) = some symbols

theorem searchBucket_eq {i : Nat} {indices : List (BitVec 32)}
    (hbucket : tables.BucketHolds memory i indices) :
    tables.searchBucket memory offset i = searchList (tables.visit memory offset) indices := by
  obtain ⟨n, hn, hindices⟩ := hbucket
  unfold searchBucket
  rw [hn, Option.bind_some]
  split
  · next hskip =>
      rw [if_pos hskip] at hindices
      rw [hindices]
      rfl
  · next hkeep =>
      rw [if_neg hkeep] at hindices
      have hlength := hindices.length_le_card
      rw [← FinEnum.card_eq_fintypeCard, FinEnum.card_bitVec] at hlength
      exact hindices.search hlength

/-- The search goes through the listed indices. -/
theorem search_eq_searchList {indices : List (BitVec 32)} (hpresent : tables.dynsym ≠ 0)
    (hlists : tables.Lists memory indices) :
    tables.search memory offset = searchList (tables.visit memory offset) indices := by
  unfold Lists at hlists
  unfold search
  rw [if_neg hpresent]
  split at hlists
  · next hgnu =>
      obtain ⟨buckets, hbuckets, rfl⟩ := hlists
      rw [if_pos hgnu, ← searchList_flatMap]
      apply searchList_congr
      intro i hi
      exact searchBucket_eq (hbuckets i (List.mem_range.mp hi))
  · next hgnu =>
      rw [if_neg hgnu, hlists, searchList_map]
      split
      · rfl
      · next hnone =>
          have hzero : tables.sysvHash.chainsCnt = 0 := by
            simpa using hnone
          rw [hzero]
          rfl

/-- The search finds the first listed symbol that matches. -/
theorem search_eq_find? {symbols : List ElfSym} (hholds : tables.Holds memory symbols) :
    tables.search memory offset =
      some (symbols.find? fun sym => xdlSymIsMatch sym offset false) := by
  unfold Holds at hholds
  split at hholds
  · next habsent =>
      rw [search, if_pos habsent, hholds]
      rfl
  · next hpresent =>
      obtain ⟨indices, hlists, hsymbols⟩ := hholds
      rw [search_eq_searchList hpresent hlists]
      exact searchList_mapM_find? hsymbols

/-- A symbol that is found is in the table and matches. -/
theorem exists_of_search {sym : ElfSym} (hfound : tables.search memory offset = some (some sym)) :
    ∃ n, tables.symAt memory n = some sym ∧ xdlSymIsMatch sym offset false = true := by
  have hvisited : ∃ n, tables.visit memory offset n = some (some sym) := by
    unfold search at hfound
    split at hfound
    · cases hfound
    · split at hfound
      · obtain ⟨i, _, hbucket⟩ := exists_of_searchList hfound
        unfold searchBucket at hbucket
        obtain ⟨n, _, hn⟩ := Option.bind_eq_some_iff.mp hbucket
        split at hn
        · cases hn
        · exact exists_of_searchChain hn
      · split at hfound
        · obtain ⟨i, _, hvisit⟩ := exists_of_searchList hfound
          exact ⟨_, hvisit⟩
        · cases hfound
  obtain ⟨n, hvisit⟩ := hvisited
  obtain ⟨read, hread, hmatch⟩ := Option.map_eq_some_iff.mp hvisit
  split at hmatch
  · next hmatches =>
      cases hmatch
      exact ⟨n, hread, hmatches⟩
  · cases hmatch

end Dynsym

/-! ## The symbol table of the file -/

namespace Symtab

variable {tables : Symtab} {offset : BitVec 64}

/-- The symbols of the copied table. -/
def Holds (tables : Symtab) (symbols : List ElfSym) : Prop :=
  if tables.symtab = [] then symbols = []
  else (List.range tables.symtabCnt).mapM tables.symAt = some symbols

theorem search_eq_find? {symbols : List ElfSym} (hholds : tables.Holds symbols) :
    tables.search offset = some (symbols.find? fun sym => xdlSymIsMatch sym offset true) := by
  unfold Holds at hholds
  unfold search
  split at hholds
  · next hempty =>
      rw [if_pos hempty, hholds]
      rfl
  · next hpresent =>
      rw [if_neg hpresent]
      exact searchList_mapM_find? hholds

theorem exists_of_search {sym : ElfSym} (hfound : tables.search offset = some (some sym)) :
    ∃ i, tables.symAt i = some sym ∧ xdlSymIsMatch sym offset true = true := by
  unfold search at hfound
  split at hfound
  · cases hfound
  · obtain ⟨i, _, hvisit⟩ := exists_of_searchList hfound
    obtain ⟨read, hread, hmatch⟩ := Option.map_eq_some_iff.mp hvisit
    split at hmatch
    · next hmatches =>
        cases hmatch
        exact ⟨i, hread, hmatches⟩
    · cases hmatch

end Symtab

end GumTVM
