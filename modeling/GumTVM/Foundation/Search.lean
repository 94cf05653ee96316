import Mathlib.Tactic.Common
import Mathlib.Data.List.Basic
import Mathlib.Data.Fintype.Card

/-!
# Searches that can fault

A visit of an item faults, gives the answer, or says to go on. Searches over a
list and along a chain of states stop at the first answer, so that a fault
behind it does no harm. Without faults a search finds what `List.findSome?`
finds in the items it goes through.
-/

namespace Foundation

variable {α β σ : Type*}

/-! ## Lists -/

/-- The first answer in a list; `none` if a visit before it faults. -/
def searchList (visit : α → Option (Option β)) : List α → Option (Option β)
  | [] => some none
  | item :: rest =>
      (visit item).bind fun
        | some answer => some (some answer)
        | none => searchList visit rest

variable {visit : α → Option (Option β)}

@[simp] theorem searchList_nil : searchList visit [] = some none := rfl

theorem searchList_cons_of_none {item : α} (hitem : visit item = some none) (rest : List α) :
    searchList visit (item :: rest) = searchList visit rest := by
  rw [searchList, hitem, Option.bind_some]

theorem searchList_cons_of_some {item : α} {answer : β} (hitem : visit item = some (some answer))
    (rest : List α) : searchList visit (item :: rest) = some (some answer) := by
  rw [searchList, hitem, Option.bind_some]

theorem searchList_cons_of_fault {item : α} (hitem : visit item = none) (rest : List α) :
    searchList visit (item :: rest) = none := by
  rw [searchList, hitem, Option.bind_none]

/-- An answer is the one of an item. -/
theorem exists_of_searchList {items : List α} {answer : β}
    (hfound : searchList visit items = some (some answer)) :
    ∃ item ∈ items, visit item = some (some answer) := by
  induction items with
  | nil => cases hfound
  | cons item rest ih =>
      cases hitem : visit item with
      | none =>
          rw [searchList_cons_of_fault hitem] at hfound
          cases hfound
      | some found =>
          cases found with
          | none =>
              rw [searchList_cons_of_none hitem] at hfound
              obtain ⟨other, hother, hanswer⟩ := ih hfound
              exact ⟨other, List.mem_cons_of_mem _ hother, hanswer⟩
          | some first =>
              rw [searchList_cons_of_some hitem] at hfound
              cases hfound
              exact ⟨item, List.mem_cons_self, hitem⟩

theorem searchList_append (first second : List α) :
    searchList visit (first ++ second) =
      (searchList visit first).bind fun
        | some answer => some (some answer)
        | none => searchList visit second := by
  induction first with
  | nil => rfl
  | cons item rest ih =>
      cases hitem : visit item with
      | none => rw [List.cons_append, searchList_cons_of_fault hitem,
          searchList_cons_of_fault hitem, Option.bind_none]
      | some found =>
          cases found with
          | none => rw [List.cons_append, searchList_cons_of_none hitem,
              searchList_cons_of_none hitem, ih]
          | some answer => rw [List.cons_append, searchList_cons_of_some hitem,
              searchList_cons_of_some hitem, Option.bind_some]

/-- A search whose visits are searches goes through all of their items. -/
theorem searchList_flatMap {ι : Type*} (parts : ι → List α) (keys : List ι) :
    searchList (fun key => searchList visit (parts key)) keys =
      searchList visit (keys.flatMap parts) := by
  induction keys with
  | nil => rfl
  | cons key rest ih =>
      rw [List.flatMap_cons, searchList_append, ← ih]
      rfl

theorem searchList_congr {other : α → Option (Option β)} {items : List α}
    (hsame : ∀ item ∈ items, visit item = other item) :
    searchList visit items = searchList other items := by
  induction items with
  | nil => rfl
  | cons item rest ih =>
      rw [searchList, searchList, hsame item List.mem_cons_self,
        ih fun next hnext => hsame next (List.mem_cons_of_mem _ hnext)]

/-- A visit of what may be there. -/
def visitPresent (visit : α → Option (Option β)) : Option α → Option (Option β)
  | some item => visit item
  | none => some none

/-- Items that are prepared one by one, some of them left out, are searched as
if all had been prepared before. -/
theorem searchList_prepared {ι : Type*} {prepare : ι → Option (Option α)} {keys : List ι}
    {prepared : List (Option α)} (hprepared : keys.mapM prepare = some prepared) :
    searchList (fun key => (prepare key).bind (visitPresent visit)) keys =
      searchList visit (prepared.filterMap id) := by
  induction keys generalizing prepared with
  | nil =>
      cases hprepared
      rfl
  | cons key rest ih =>
      rw [List.mapM_cons] at hprepared
      obtain ⟨first, hfirst, hrest⟩ := Option.bind_eq_some_iff.mp hprepared
      obtain ⟨later, hlater, hcons⟩ := Option.bind_eq_some_iff.mp hrest
      cases hcons
      rw [searchList, hfirst, ih hlater]
      cases first with
      | none => rfl
      | some item => rfl

/-- Without faults the search is the one of lists. -/
theorem searchList_eq_findSome? {answer : α → Option β} {items : List α}
    (hvisit : ∀ item ∈ items, visit item = some (answer item)) :
    searchList visit items = some (items.findSome? answer) := by
  induction items with
  | nil => rfl
  | cons item rest ih =>
      have hitem := hvisit item List.mem_cons_self
      have hrest := ih fun other hother => hvisit other (List.mem_cons_of_mem _ hother)
      cases hanswer : answer item with
      | none =>
          rw [hanswer] at hitem
          rw [searchList_cons_of_none hitem, hrest,
            List.findSome?_cons_of_isNone (by simp [hanswer])]
      | some found =>
          rw [hanswer] at hitem
          rw [searchList_cons_of_some hitem, List.findSome?_cons_of_isSome (by simp [hanswer]),
            hanswer]

theorem searchList_map {ι : Type*} (f : ι → α) (keys : List ι) :
    searchList visit (keys.map f) = searchList (fun key => visit (f key)) keys := by
  induction keys with
  | nil => rfl
  | cons key rest ih => rw [List.map_cons, searchList, searchList, ih]

/-- A search for a property among records that can all be read is the one among
the records. -/
theorem searchList_mapM_find? {ι : Type*} {read : ι → Option α} {accept : α → Bool}
    {keys : List ι} {items : List α} (hread : keys.mapM read = some items) :
    searchList (fun key => (read key).map fun item => if accept item then some item else none)
      keys = some (items.find? accept) := by
  induction keys generalizing items with
  | nil =>
      cases hread
      rfl
  | cons key rest ih =>
      rw [List.mapM_cons] at hread
      obtain ⟨item, hitem, hrest⟩ := Option.bind_eq_some_iff.mp hread
      obtain ⟨later, hlater, hcons⟩ := Option.bind_eq_some_iff.mp hrest
      cases hcons
      rw [searchList, hitem, Option.map_some, Option.bind_some, ih hlater, List.find?_cons]
      cases accept item <;> rfl

/-! ## Chains -/

/-- A search along the states that `advance` goes through, which ends a chain by
`some none`; `none` if a turn faults or the chain has no end within the fuel. -/
def searchChain (visit : σ → Option (Option β)) (advance : σ → Option (Option σ)) :
    Nat → σ → Option (Option β)
  | 0, _ => none
  | fuel + 1, state =>
      (visit state).bind fun
        | some answer => some (some answer)
        | none =>
            (advance state).bind fun
              | some next => searchChain visit advance fuel next
              | none => some none

/-- The states of a chain from one of them to its end. -/
inductive Chain (advance : σ → Option (Option σ)) : σ → List σ → Prop where
  | last {state : σ} : advance state = some none → Chain advance state [state]
  | next {state next : σ} {later : List σ} : advance state = some (some next) →
      Chain advance next later → Chain advance state (state :: later)

variable {visitState : σ → Option (Option β)} {advance : σ → Option (Option σ)}

/-- A state has one chain. -/
theorem Chain.unique {state : σ} {first second : List σ} (hfirst : Chain advance state first)
    (hsecond : Chain advance state second) : first = second := by
  induction hfirst generalizing second with
  | last hend =>
      cases hsecond with
      | last _ => rfl
      | next hadvance _ =>
          rw [hend] at hadvance
          cases hadvance
  | next hadvance _ ih =>
      cases hsecond with
      | last hend =>
          rw [hadvance] at hend
          cases hend
      | next hother hlater =>
          rw [hadvance] at hother
          cases hother
          rw [ih hlater]

/-- Each state of a chain is the start of a chain that is no longer. -/
theorem Chain.of_mem {state other : σ} {states : List σ} (hchain : Chain advance state states)
    (hmem : other ∈ states) :
    ∃ later, Chain advance other later ∧ later.length ≤ states.length := by
  induction hchain with
  | last hend =>
      obtain rfl := List.mem_singleton.mp hmem
      exact ⟨_, .last hend, le_rfl⟩
  | next hadvance hlater ih =>
      rcases List.mem_cons.mp hmem with rfl | htail
      · exact ⟨_, .next hadvance hlater, le_rfl⟩
      · obtain ⟨later, hother, hlength⟩ := ih htail
        exact ⟨later, hother, Nat.le_succ_of_le hlength⟩

/-- A chain does not come back to a state. -/
theorem Chain.nodup {state : σ} {states : List σ} (hchain : Chain advance state states) :
    states.Nodup := by
  induction hchain with
  | last _ => exact List.nodup_singleton _
  | next hadvance hlater ih =>
      refine List.nodup_cons.mpr ⟨?_, ih⟩
      intro hmem
      obtain ⟨later, hagain, hlength⟩ := hlater.of_mem hmem
      rw [hagain.unique (.next hadvance hlater), List.length_cons] at hlength
      exact Nat.not_succ_le_self _ hlength

theorem Chain.length_le_card [Fintype σ] {state : σ} {states : List σ}
    (hchain : Chain advance state states) : states.length ≤ Fintype.card σ :=
  hchain.nodup.length_le_card

/-- A search along a chain goes through its states. -/
theorem Chain.search {state : σ} {states : List σ} (hchain : Chain advance state states)
    {fuel : Nat} (hfuel : states.length ≤ fuel) :
    searchChain visitState advance fuel state = searchList visitState states := by
  induction hchain generalizing fuel with
  | last hend =>
      cases fuel with
      | zero => cases hfuel
      | succ fuel =>
          rw [searchChain, searchList, hend]
          rfl
  | next hadvance hlater ih =>
      cases fuel with
      | zero => cases hfuel
      | succ fuel =>
          rw [searchChain, searchList, hadvance]
          simp only [Option.bind_some, ih (Nat.le_of_succ_le_succ hfuel)]

/-- Whatever the chain is like, an answer is the one of a state. -/
theorem exists_of_searchChain {fuel : Nat} {state : σ} {answer : β}
    (hfound : searchChain visitState advance fuel state = some (some answer)) :
    ∃ other, visitState other = some (some answer) := by
  induction fuel generalizing state with
  | zero => cases hfound
  | succ fuel ih =>
      rw [searchChain] at hfound
      obtain ⟨visited, hvisit, hturn⟩ := Option.bind_eq_some_iff.mp hfound
      cases visited with
      | some first =>
          cases hturn
          exact ⟨state, hvisit⟩
      | none =>
          obtain ⟨moved, _, hmoved⟩ := Option.bind_eq_some_iff.mp hturn
          cases moved with
          | some next => exact ih hmoved
          | none => cases hmoved

end Foundation
