import Mathlib.Algebra.BigOperators.Fin
import Mathlib.Tactic.Abel
import Xv6.Lib.Bytes
import Xv6.Lib.Outcome

/-!
# Physical pages and page tables

`kernel/kalloc.c`, and `walk`, `mappages`, `uvmunmap` and `freewalk` of
`kernel/vm.c`. A physical page is its page number, and so is a virtual one; a
page table is the tree of its three levels, in which each table carries the
page it lives in. The content of a page of the allocator is its bytes; the
content of a page-table page is the table itself. The free list is a list beside
the pages, where the code links the free pages through their first words.

These values stand for the memory as long as no page is in two places. That is so
in the runs of `FreesOwnPages` and of `Sparing`, which free no page that is still
mapped. In others a store through a stale mapping can overwrite a table, or a link
of the free list.

What the rest of the development uses of a page table are `PageTable.lookup`,
the map from virtual pages to leaf entries, and `PageTable.pages`, the multiset
of pages it lives in. The rules below say what `walk`, `mappages`, `uvmunmap` and
`freewalk` do to these two and to the free list.
-/

namespace Xv6.Vm

open Outcome
open Function
open Multiset (cons_coe count_add mem_add mem_singleton singleton_add subset_of_le)

def PGSIZE : Nat := 4096

/-- `MAXVA / PGSIZE`: virtual pages at or above it make `walk` panic. -/
def MAXVPN : Nat := 2 ^ 26

/-- The virtual pages of `TRAMPOLINE` and `TRAPFRAME`. -/
def trampolineVpn : Nat := MAXVPN - 1

def trapframeVpn : Nat := MAXVPN - 2

/-- `PHYSTOP / PGSIZE`. -/
def PHYSTOP : Nat := 0x88000

/-- The texts the modelled code panics with; `fault` is a kernel access through a
null pointer. -/
inductive Panic
  | walk | remap | freewalkLeaf | kfree | uvmclear | loadseg | initExiting | fault
  deriving DecidableEq

abbrev Page := Bytes PGSIZE

/-! ## The page allocator -/

/-- `kmem.freelist`, the content of physical memory, and the first page after the
kernel (`end`). -/
structure Kmem where
  free : List Nat
  mem : Nat → Page
  first : Nat

def Kmem.memset (k : Kmem) (p : Nat) (byte : UInt8) : Kmem :=
  { k with mem := update k.mem p fun _ => byte }

def Kmem.kalloc (k : Kmem) : Option (Nat × Kmem) :=
  match k.free with
  | [] => none
  | p :: rest => some (p, { k with free := rest }.memset p 5)

def Kmem.kfree (k : Kmem) (p : Nat) : Except Panic Kmem :=
  if k.first ≤ p ∧ p < PHYSTOP then
    .ok { k.memset p 1 with free := p :: k.free }
  else .error .kfree

@[simp] theorem Kmem.memset_free (k : Kmem) (p : Nat) (byte : UInt8) :
    (k.memset p byte).free = k.free := rfl

theorem Kmem.kalloc_free {k k' : Kmem} (alloc : k.kalloc = some (p, k')) :
    k.free = p :: k'.free := by
  unfold Kmem.kalloc at alloc
  split at alloc
  · cases alloc
  · next rest same =>
    cases alloc
    exact same

theorem Kmem.kfree_ends (k : Kmem) (p : Nat) :
    Ends (· = .kfree) (fun k' : Kmem => k'.free = p :: k.free) (k.kfree p) := by
  unfold Kmem.kfree
  split
  · exact .ok rfl
  · exact .error rfl

/-- `kfree` takes this page. -/
def Kmem.Fit (k : Kmem) (p : Nat) : Prop := k.first ≤ p ∧ p < PHYSTOP

/-- Only the content of pages of `H` has changed. -/
structure Kmem.Within (k : Kmem) (H : Multiset Nat) (k' : Kmem) : Prop where
  first : k'.first = k.first
  mem : ∀ x, x ∉ H → k'.mem x = k.mem x

section Within

variable {k k1 k2 : Kmem} {H H' : Multiset Nat}

theorem Kmem.Within.refl (k : Kmem) (H : Multiset Nat) : k.Within H k := ⟨rfl, fun _ _ => rfl⟩

theorem Kmem.Within.trans (one : k.Within H k1) (two : k1.Within H k2) : k.Within H k2 :=
  ⟨two.first.trans one.first, fun x out => (two.mem x out).trans (one.mem x out)⟩

theorem Kmem.Within.mono (within : k.Within H k1) (sub : H ⊆ H') : k.Within H' k1 :=
  ⟨within.first, fun x out => within.mem x fun mem => out (sub mem)⟩

theorem Kmem.memset_within (k : Kmem) (p : Nat) (byte : UInt8) : k.Within {p} (k.memset p byte) :=
  ⟨rfl, fun _ out => update_of_ne (fun same => out (mem_singleton.mpr same)) ..⟩

theorem Kmem.kalloc_within (alloc : k.kalloc = some (p, k1)) : k.Within {p} k1 := by
  unfold Kmem.kalloc at alloc
  split at alloc
  · cases alloc
  · next rest _ =>
    cases alloc
    exact ⟨rfl, (Kmem.memset_within { k with free := rest } p 5).mem⟩

end Within

theorem Kmem.kfree_fit (k : Kmem) (p : Nat) :
    Ends (fun e => e = .kfree ∧ ¬ k.Fit p)
      (fun k' : Kmem => k'.free = p :: k.free ∧ k.Within {p} k') (k.kfree p) := by
  unfold Kmem.kfree
  split
  · exact .ok ⟨rfl, rfl, (k.memset_within p 1).mem⟩
  · next unfit => exact .error ⟨rfl, unfit⟩

/-! ## Page tables -/

/-- The permission bits of a leaf entry. -/
structure Perm where
  r : Bool := false
  w : Bool := false
  x : Bool := false
  u : Bool := false
  deriving DecidableEq

/-- A valid leaf entry. -/
structure Pte where
  ppn : Nat
  perm : Perm
  deriving DecidableEq

/-- One table: its page, and its 512 entries, `none` where `PTE_V` is clear. -/
structure Table (α : Type) where
  page : Nat
  entry : Fin 512 → Option α

/-- A page table: its root, with two levels of tables below it. -/
abbrev PageTable := Table (Table (Table Pte))

def Table.empty {α : Type} (page : Nat) : Table α := ⟨page, fun _ => none⟩

def Table.set {α : Type} (t : Table α) (i : Fin 512) (c : Option α) : Table α :=
  { t with entry := update t.entry i c }

/-- `PX(level, va)`. -/
def px (level vpn : Nat) : Fin 512 := ⟨vpn / 512 ^ level % 512, by omega⟩

/-- The child of a table at an index; `walk` allocates it if it is missing. -/
def Table.child {α : Type} (t : Table (Table α)) (i : Fin 512) (k : Kmem) :
    Option (Table α × Kmem) :=
  match t.entry i with
  | some c => some (c, k)
  | none =>
    match k.kalloc with
    | some (page, k) => some (Table.empty page, k.memset page 0)
    | none => none

/-- `walk(pagetable, va, 1)` below `MAXVA`: the tables on the way to the leaf entry
are there afterwards, unless memory runs out. -/
def PageTable.walk (pt : PageTable) (vpn : Nat) (k : Kmem) : PageTable × Kmem × Bool :=
  match pt.child (px 2 vpn) k with
  | none => (pt, k, false)
  | some (mid, k) =>
    match mid.child (px 1 vpn) k with
    | none => (pt.set (px 2 vpn) (some mid), k, false)
    | some (low, k) => (pt.set (px 2 vpn) (some (mid.set (px 1 vpn) (some low))), k, true)

/-- `walk(pagetable, va, 0)`: the last table on the way to the leaf entry. -/
def PageTable.low (pt : PageTable) (vpn : Nat) : Option (Table Pte) :=
  (pt.entry (px 2 vpn)).bind fun mid => mid.entry (px 1 vpn)

/-- The leaf entry of a virtual page, if `PTE_V` is set in it. -/
def PageTable.lookup (pt : PageTable) (vpn : Nat) : Option Pte :=
  if vpn < 2 ^ 27 then (pt.low vpn).bind fun low => low.entry (px 0 vpn) else none

/-- Store a leaf entry, where `walk` has found the way to it. -/
def PageTable.setLeaf (pt : PageTable) (vpn : Nat) (pte : Option Pte) : PageTable :=
  match pt.entry (px 2 vpn) with
  | none => pt
  | some mid =>
    match mid.entry (px 1 vpn) with
    | none => pt
    | some low =>
      pt.set (px 2 vpn) (some (mid.set (px 1 vpn) (some (low.set (px 0 vpn) pte))))

/-- `mappages` of one page, as every caller below uses it; the result is false when
`walk` runs out of memory. -/
def mappages (pt : PageTable) (k : Kmem) (vpn ppn : Nat) (perm : Perm) :
    Except Panic (PageTable × Kmem × Bool) :=
  if vpn ≥ MAXVPN then .error .walk
  else
    match pt.walk vpn k with
    | (pt, k, false) => .ok (pt, k, false)
    | (pt, k, true) =>
      if (pt.lookup vpn).isSome then .error .remap
      else .ok (pt.setLeaf vpn (some ⟨ppn, perm⟩), k, true)

/-- `uvmunmap` of `n` pages from `vpn` on. -/
def uvmunmap (pt : PageTable) (k : Kmem) (vpn : Nat) (n : Nat) (doFree : Bool) :
    Except Panic (PageTable × Kmem) :=
  match n with
  | 0 => .ok (pt, k)
  | n + 1 =>
    if vpn ≥ MAXVPN then .error .walk
    else
      match pt.lookup vpn with
      | none => uvmunmap pt k (vpn + 1) n doFree
      | some pte => do
          let k ← if doFree then k.kfree pte.ppn else .ok k
          uvmunmap (pt.setLeaf vpn none) k (vpn + 1) n doFree

/-- The loop of `freewalk` on one table, with `free` on its valid entries. -/
def Table.freeEntries {α : Type} (free : α → Kmem → Except Panic Kmem) (t : Table α)
    (items : List (Fin 512)) (k : Kmem) : Except Panic Kmem :=
  items.foldlM
    (fun k i =>
      match t.entry i with
      | some c => free c k
      | none => .ok k) k

/-- `freewalk` on one table. -/
def Table.freewalk {α : Type} (free : α → Kmem → Except Panic Kmem) (t : Table α) (k : Kmem) :
    Except Panic Kmem := do
  let k ← t.freeEntries free (List.finRange 512) k
  k.kfree t.page

/-- `freewalk`: a valid leaf entry is a panic. -/
def freewalk (pt : PageTable) (k : Kmem) : Except Panic Kmem :=
  Table.freewalk (Table.freewalk (Table.freewalk fun _ _ => .error .freewalkLeaf)) pt k

/-! ## The pages a page table lives in -/

/-- The page of a table, with the pages below its entries. -/
def Table.pages {α : Type} (below : α → Multiset Nat) (t : Table α) : Multiset Nat :=
  {t.page} + ∑ i, (t.entry i).elim 0 below

/-- The pages of the tables of all three levels. -/
def PageTable.pages (pt : PageTable) : Multiset Nat :=
  Table.pages (Table.pages (Table.pages fun _ => 0)) pt

section Table

variable {α : Type} {below : α → Multiset Nat} {t : Table α} {i : Fin 512}

theorem Table.pages_empty (page : Nat) : (Table.empty page : Table α).pages below = {page} := by
  simp [Table.pages, Table.empty]

/-- Storing an entry exchanges the pages below the old one for those below the new one. -/
theorem Table.pages_set (below : α → Multiset Nat) (t : Table α) (i : Fin 512) (c : Option α) :
    (t.set i c).pages below + (t.entry i).elim 0 below = t.pages below + c.elim 0 below := by
  have others : ∑ j ∈ Finset.univ.erase i, ((t.set i c).entry j).elim 0 below =
      ∑ j ∈ Finset.univ.erase i, (t.entry j).elim 0 below := by
    apply Finset.sum_congr rfl
    intro j out
    simp [Table.set, Finset.ne_of_mem_erase out]
  have self : (t.set i c).entry i = c := by simp [Table.set]
  unfold Table.pages
  rw [← Finset.add_sum_erase _ _ (Finset.mem_univ i), others, self,
    ← Finset.add_sum_erase _ (fun j => (t.entry j).elim 0 below) (Finset.mem_univ i)]
  simp only [Table.set]
  abel

theorem Table.child_pages (below : α → Multiset Nat) {t : Table (Table α)}
    (child : t.child i k = some (c, k')) :
    (k'.free : Multiset Nat) + c.pages below =
      k.free + (t.entry i).elim 0 (Table.pages below) := by
  unfold Table.child at child
  split at child
  · next present => cases child; rw [present]; rfl
  rename_i absent
  split at child
  · next page rest alloc =>
    cases child
    rw [absent, Kmem.kalloc_free alloc, Table.pages_empty, Kmem.memset_free,
      ← cons_coe, ← singleton_add, Option.elim_none]
    abel
  · cases child

theorem Table.child_entry {t : Table (Table α)} (child : t.child i k = some (c, k')) (j : Fin 512) :
    c.entry j = (t.entry i).bind fun old => old.entry j := by
  unfold Table.child at child
  split at child
  · next present => cases child; rw [present]; rfl
  · next absent =>
    split at child
    · cases child; rw [absent]; rfl
    · cases child

end Table

/-! ## Walking to a leaf entry -/

section Walk

variable {pt pt' : PageTable} {vpn : Nat} {k k' : Kmem} {found : Bool}

theorem px_inj (hv : v < 2 ^ 27) (hw : w < 2 ^ 27) (two : px 2 v = px 2 w) (one : px 1 v = px 1 w)
    (zero : px 0 v = px 0 w) : v = w := by
  simp only [px, Fin.mk.injEq] at two one zero
  omega

theorem PageTable.walk_pages (walk : pt.walk vpn k = (pt', k', found)) :
    (k'.free : Multiset Nat) + pt'.pages = k.free + pt.pages := by
  unfold PageTable.walk at walk
  split at walk
  · cases walk; rfl
  rename_i mid k1 first
  have top := Table.child_pages (Table.pages fun _ => 0) first
  split at walk
  · cases walk
    have link := pt.pages_set (Table.pages (Table.pages fun _ => 0))
      (px 2 vpn) (some mid)
    ext x
    have top := congrArg (Multiset.count x) top
    have link := congrArg (Multiset.count x) link
    simp only [count_add, Option.elim_some, PageTable.pages] at top link ⊢
    omega
  · next low k2 second =>
    cases walk
    have bottom := Table.child_pages (fun _ => 0) second
    have link := mid.pages_set (Table.pages fun _ => 0) (px 1 vpn) (some low)
    have link' := pt.pages_set (Table.pages (Table.pages fun _ => 0))
      (px 2 vpn) (some (mid.set (px 1 vpn) (some low)))
    ext x
    have top := congrArg (Multiset.count x) top
    have bottom := congrArg (Multiset.count x) bottom
    have link := congrArg (Multiset.count x) link
    have link' := congrArg (Multiset.count x) link'
    simp only [count_add, Option.elim_some, PageTable.pages] at top bottom link link' ⊢
    omega

theorem PageTable.walk_lookup (walk : pt.walk vpn k = (pt', k', found)) :
    pt'.lookup = pt.lookup := by
  funext w
  unfold PageTable.walk at walk
  split at walk
  · cases walk; rfl
  rename_i mid k1 first
  have top := Table.child_entry first
  split at walk
  · cases walk
    by_cases same : px 2 w = px 2 vpn
    · simp [PageTable.lookup, PageTable.low, Table.set, same, top]
    · simp [PageTable.lookup, PageTable.low, Table.set, same]
  rename_i low k2 second
  cases walk
  have bottom := Table.child_entry second
  by_cases same : px 2 w = px 2 vpn
  · by_cases same' : px 1 w = px 1 vpn
    · simp [PageTable.lookup, PageTable.low, Table.set, same, same', bottom, top,
        Option.bind_assoc]
    · simp [PageTable.lookup, PageTable.low, Table.set, same, same', top]
  · simp [PageTable.lookup, PageTable.low, Table.set, same]

theorem PageTable.walk_low (walk : pt.walk vpn k = (pt', k', true)) : (pt'.low vpn).isSome := by
  unfold PageTable.walk at walk
  split at walk
  · cases walk
  · split at walk <;> cases walk
    simp [PageTable.low, Table.set]

/-- Pages have gone from the free list to the tables, and only free pages are written to. -/
structure Walked (k : Kmem) (pt : PageTable) (k' : Kmem) (pt' : PageTable) : Prop where
  pages : (k'.free : Multiset Nat) + pt'.pages = k.free + pt.pages
  within : k.Within k.free k'
  free : k'.free <:+ k.free

theorem Walked.refl (k : Kmem) (pt : PageTable) : Walked k pt k pt :=
  ⟨rfl, .refl k _, List.suffix_rfl⟩

theorem Walked.trans (one : Walked k pt k1 pt1) (two : Walked k1 pt1 k' pt') :
    Walked k pt k' pt' where
  pages := two.pages.trans one.pages
  within := one.within.trans (two.within.mono fun _ mem => one.free.subset mem)
  free := two.free.trans one.free

theorem Table.child_within {α : Type} {t : Table (Table α)} {c : Table α}
    (child : t.child i k = some (c, k')) : k.Within k.free k' ∧ k'.free <:+ k.free := by
  unfold Table.child at child
  split at child
  · cases child
    exact ⟨.refl k _, List.suffix_rfl⟩
  split at child
  · next page k1 alloc =>
    cases child
    have free := Kmem.kalloc_free alloc
    have taken := (Kmem.kalloc_within alloc).trans (k1.memset_within page 0)
    rw [Kmem.memset_free, free]
    refine ⟨taken.mono ?_, List.suffix_cons _ _⟩
    intro x mem
    rw [mem_singleton.mp mem]
    exact List.mem_cons_self
  · cases child

theorem PageTable.walk_walked (walk : pt.walk vpn k = (pt', k', found)) : Walked k pt k' pt' := by
  suffices both : k.Within k.free k' ∧ k'.free <:+ k.free from
    ⟨PageTable.walk_pages walk, both.1, both.2⟩
  unfold PageTable.walk at walk
  split at walk
  · cases walk
    exact ⟨.refl k _, List.suffix_rfl⟩
  rename_i mid k1 first
  obtain ⟨within, free⟩ := Table.child_within first
  split at walk
  · cases walk
    exact ⟨within, free⟩
  · next low k2 second =>
    cases walk
    obtain ⟨within', free'⟩ := Table.child_within second
    exact ⟨within.trans (within'.mono fun x mem => free.subset mem), free'.trans free⟩

theorem PageTable.low_of_lookup (mapped : pt.lookup vpn ≠ none) : (pt.low vpn).isSome := by
  unfold PageTable.lookup at mapped
  cases path : pt.low vpn with
  | none => simp [path] at mapped
  | some low => rfl

theorem PageTable.setLeaf_lookup (path : (pt.low vpn).isSome) (small : vpn < 2 ^ 27)
    (pte : Option Pte) : (pt.setLeaf vpn pte).lookup = update pt.lookup vpn pte := by
  obtain ⟨low, path⟩ := Option.isSome_iff_exists.mp path
  obtain ⟨mid, first, second⟩ := Option.bind_eq_some_iff.mp path
  funext w
  by_cases same : w = vpn
  · subst same
    rw [update_self, PageTable.lookup, if_pos small]
    simp [PageTable.setLeaf, first, second, PageTable.low, Table.set]
  rw [update_of_ne same]
  simp only [PageTable.setLeaf, first, second, PageTable.lookup, PageTable.low, Table.set]
  by_cases inside : w < 2 ^ 27
  · by_cases same2 : px 2 w = px 2 vpn
    · by_cases same1 : px 1 w = px 1 vpn
      · have other : px 0 w ≠ px 0 vpn := fun same0 => same (px_inj inside small same2 same1 same0)
        simp [same2, same1, other, first, second]
      · simp [same2, same1, first]
    · simp [same2]
  · rw [if_neg inside, if_neg inside]

theorem PageTable.setLeaf_pages (pt : PageTable) (vpn : Nat) (pte : Option Pte) :
    (pt.setLeaf vpn pte).pages = pt.pages := by
  unfold PageTable.setLeaf
  split
  · rfl
  rename_i mid first
  split
  · rfl
  rename_i low second
  have leaf := low.pages_set (fun _ => 0) (px 0 vpn) pte
  have link := mid.pages_set (Table.pages fun _ => 0) (px 1 vpn)
    (some (low.set (px 0 vpn) pte))
  have link' := pt.pages_set (Table.pages (Table.pages fun _ => 0)) (px 2 vpn)
    (some (mid.set (px 1 vpn) (some (low.set (px 0 vpn) pte))))
  rw [second] at link
  rw [first] at link'
  ext x
  have leaf := congrArg (Multiset.count x) leaf
  have link := congrArg (Multiset.count x) link
  have link' := congrArg (Multiset.count x) link'
  have none_below (o : Option Pte) : Multiset.count x (o.elim 0 fun _ => 0) = 0 := by
    cases o <;> simp
  simp only [count_add, Option.elim_some, PageTable.pages, none_below]
    at leaf link link' ⊢
  omega

end Walk

/-! ## The rules of the operations -/

/-- `mappages` takes page-table pages off the free list and adds the one leaf entry. It panics
if the address is too high, or if an entry is there. -/
theorem mappages_ends (pt : PageTable) (k : Kmem) (vpn ppn : Nat) (perm : Perm) :
    Ends (fun e => e = .walk ∧ MAXVPN ≤ vpn ∨ e = .remap ∧ (pt.lookup vpn).isSome)
      (fun (pt', k', ok) => Walked k pt k' pt' ∧ vpn < MAXVPN ∧
        (if ok then pt.lookup vpn = none ∧
            pt'.lookup = update pt.lookup vpn (some ⟨ppn, perm⟩)
          else pt'.lookup = pt.lookup))
      (mappages pt k vpn ppn perm) := by
  unfold mappages
  split
  · next high => exact .error (.inl ⟨rfl, high⟩)
  rename_i inside
  have inside : vpn < MAXVPN := Nat.lt_of_not_le inside
  have small : vpn < 2 ^ 27 := Nat.lt_trans inside (by decide)
  split
  · next walk => exact .ok ⟨PageTable.walk_walked walk, inside, PageTable.walk_lookup walk⟩
  rename_i pt1 k1 walk
  have same := PageTable.walk_lookup walk
  have walked := PageTable.walk_walked walk
  split
  · next mapped =>
    rw [same] at mapped
    exact .error (.inr ⟨rfl, mapped⟩)
  rename_i unmapped
  rw [same, Bool.not_eq_true, Option.isSome_eq_false_iff, Option.isNone_iff_eq_none]
    at unmapped
  refine .ok ⟨⟨?_, walked.within, walked.free⟩, inside, unmapped, ?_⟩
  · rw [PageTable.setLeaf_pages]
    exact walked.pages
  · rw [PageTable.setLeaf_lookup (PageTable.walk_low walk) small, same]

/-- The leaf entries with those of `n` pages from `vpn` on cleared. -/
def clearRange (leaf : Nat → Option Pte) (vpn n w : Nat) : Option Pte :=
  if vpn ≤ w ∧ w < vpn + n then none else leaf w

theorem clearRange_zero (leaf : Nat → Option Pte) (vpn : Nat) : clearRange leaf vpn 0 = leaf := by
  funext w
  exact if_neg (by omega)

theorem clearRange_succ (leaf : Nat → Option Pte) (vpn n : Nat) :
    clearRange (update leaf vpn none) (vpn + 1) n = clearRange leaf vpn (n + 1) := by
  funext w
  unfold clearRange
  by_cases here : w = vpn
  · rw [here, if_neg (by omega), if_pos (by omega), update_self]
  · rw [update_of_ne here]
    by_cases later : vpn + 1 ≤ w ∧ w < vpn + 1 + n
    · rw [if_pos later, if_pos (by omega)]
    · rw [if_neg later, if_neg (by omega)]

theorem clearRange_eq_some :
    clearRange leaf vpn n w = some pte ↔ ¬ (vpn ≤ w ∧ w < vpn + n) ∧ leaf w = some pte := by
  unfold clearRange
  split
  · next inside => simp [inside]
  · next out => simp [out]

/-- `uvmunmap` without freeing clears the entries of the range and touches nothing else. It
panics if the range is too high. -/
theorem uvmunmap_ends (k : Kmem) (n : Nat) : ∀ (pt : PageTable) (vpn : Nat),
    Ends (fun e => e = .walk ∧ MAXVPN < vpn + n)
      (fun (pt', k') => k' = k ∧ pt'.pages = pt.pages ∧ pt'.lookup = clearRange pt.lookup vpn n)
      (uvmunmap pt k vpn n false) := by
  induction n with
  | zero =>
    intro pt vpn
    exact .ok ⟨rfl, rfl, (clearRange_zero pt.lookup vpn).symm⟩
  | succ n rest =>
    intro pt vpn
    rw [← clearRange_succ]
    unfold uvmunmap
    split
    · next high => exact .error ⟨rfl, by omega⟩
    rename_i inside
    split
    · next unmapped =>
      rw [← unmapped, update_eq_self]
      exact (rest pt (vpn + 1)).errors fun e high => ⟨high.1, by omega⟩
    rename_i pte mapped
    have path := PageTable.low_of_lookup (by rw [mapped]; simp)
    have leaf := PageTable.setLeaf_lookup path (by unfold MAXVPN at inside; omega) none
    rw [← leaf, ← PageTable.setLeaf_pages pt vpn none]
    exact (rest (pt.setLeaf vpn none) (vpn + 1)).errors fun e high => ⟨high.1, by omega⟩

/-- The pages `H` have been put on the free list. -/
structure Kmem.Freed (k : Kmem) (H : Multiset Nat) (k' : Kmem) : Prop where
  free : (k'.free : Multiset Nat) = H + k.free
  within : k.Within H k'

theorem Kmem.Freed.refl (k : Kmem) : k.Freed 0 k := ⟨(zero_add _).symm, .refl k 0⟩

theorem Kmem.Freed.trans {k k1 k2 : Kmem} (one : k.Freed H k1) (two : k1.Freed H' k2) :
    k.Freed (H + H') k2 := by
  constructor
  · rw [two.free, one.free]
    abel
  · exact (one.within.mono (subset_of_le (Multiset.le_add_right H H'))).trans
      (two.within.mono (subset_of_le (Multiset.le_add_left H' H)))

section Freewalk

variable {α : Type} {below : α → Multiset Nat} {E : Panic → Prop} {first : Nat}
  {free : α → Kmem → Except Panic Kmem} (t : Table α)

theorem Table.freeEntries_ends
    (frees : ∀ i c k, t.entry i = some c → k.first = first →
      Ends E (fun k' : Kmem => k.Freed (below c) k') (free c k))
    (items : List (Fin 512)) (k : Kmem) (start : k.first = first) :
    Ends E (fun k' : Kmem => k.Freed (items.map fun i => (t.entry i).elim 0 below).sum k')
      (t.freeEntries free items k) := by
  induction items generalizing k with
  | nil => exact .ok (.refl k)
  | cons i rest entries =>
    unfold Table.freeEntries
    rw [List.foldlM_cons, List.map_cons, List.sum_cons]
    apply Ends.bind (Q := fun k' : Kmem => k.Freed ((t.entry i).elim 0 below) k')
    · split
      · next c present =>
        rw [present]
        exact frees i c k present start
      · next absent =>
        rw [absent]
        exact .ok (.refl k)
    · intro k1 one
      apply (entries k1 (one.within.first.trans start)).imp
      intro k2 two
      exact one.trans two

theorem Table.freewalk_ends (kfree : ∀ k : Kmem, k.first = first → ¬ k.Fit t.page → E .kfree)
    (frees : ∀ i c k, t.entry i = some c → k.first = first →
      Ends E (fun k' : Kmem => k.Freed (below c) k') (free c k))
    (k : Kmem) (start : k.first = first) :
    Ends E (fun k' : Kmem => k.Freed (t.pages below) k') (t.freewalk free k) := by
  refine (t.freeEntries_ends frees (List.finRange 512) k start).bind fun k1 entries => ?_
  refine (k1.kfree_fit t.page).mono ?_ ?_
  · intro e ⟨same, unfit⟩
    rw [same]
    exact kfree k1 (entries.within.first.trans start) unfit
  · intro k2 ⟨freed, within⟩
    rw [Table.pages, add_comm]
    exact entries.trans ⟨by rw [freed, ← cons_coe, ← singleton_add], within⟩

theorem Table.below_pages (below : α → Multiset Nat) {t : Table α} (present : t.entry i = some c) :
    below c ⊆ t.pages below := by
  intro x mem
  rw [Table.pages, mem_add, ← Finset.add_sum_erase _ _ (Finset.mem_univ i), present,
    mem_add]
  right
  left
  exact mem

theorem Table.page_mem (t : Table α) : t.page ∈ t.pages below := by
  rw [Table.pages, mem_add]
  left
  exact Multiset.mem_singleton_self _

end Freewalk

-- a sum over 512 entries, which nothing below should compute
attribute [irreducible] Table.pages

/-- `freewalk` puts the pages of the tables on the free list. It panics with "freewalk:
leaf" only if a leaf entry is left, and in `kfree` only if that does not take a page. -/
theorem freewalk_ends (pt : PageTable) (k : Kmem) :
    Ends (fun e => e = .freewalkLeaf ∧ (∃ v pte, pt.lookup v = some pte) ∨
        e = .kfree ∧ ∃ x ∈ pt.pages, ¬ k.Fit x)
      (fun k' : Kmem => k.Freed pt.pages k') (freewalk pt k) := by
  have unfit {x : Nat} (mem : x ∈ pt.pages) (k1 : Kmem) (same : k1.first = k.first)
      (unfit : ¬ k1.Fit x) : (Panic.kfree = .freewalkLeaf ∧ (∃ v pte, pt.lookup v = some pte)) ∨
        Panic.kfree = .kfree ∧ ∃ x ∈ pt.pages, ¬ k.Fit x := by
    refine .inr ⟨rfl, x, mem, fun fit => unfit ?_⟩
    unfold Kmem.Fit
    rw [same]
    exact fit
  refine Table.freewalk_ends pt (unfit pt.page_mem) (fun i mid k1 one start1 => ?_) k rfl
  have sub := Table.below_pages (Table.pages (Table.pages fun _ => 0)) one
  refine Table.freewalk_ends mid (unfit (sub mid.page_mem))
    (fun j low k2 two start2 => ?_) k1 start1
  have sub' := Table.below_pages (Table.pages fun _ => 0) two
  refine Table.freewalk_ends low (unfit (sub (sub' low.page_mem)))
    (fun l pte k3 three _ => .error (.inl ⟨rfl, ?_⟩)) k2 start2
  refine ⟨i * 512 ^ 2 + j * 512 + l, pte, ?_⟩
  have at2 : px 2 (i * 512 ^ 2 + j * 512 + l) = i := Fin.ext (by simp only [px]; omega)
  have at1 : px 1 (i * 512 ^ 2 + j * 512 + l) = j := Fin.ext (by simp only [px]; omega)
  have at0 : px 0 (i * 512 ^ 2 + j * 512 + l) = l := Fin.ext (by simp only [px]; omega)
  rw [PageTable.lookup, if_pos (by omega), PageTable.low, at2, at1, at0, one]
  simp [two, three]

attribute [irreducible] PageTable.pages

end Xv6.Vm
