import Xv6.Vm.Uvm

/-!
# Where the pages go

The functions of `kernel/vm.c` move pages between the free list, the tables of a page table
and its user pages. `stock` is all of these together, as a multiset. There is one rule for each
function: what it does to the entries of the page table, that it leaves the stock as it is, and
which pages it writes to. The rules are about the pages alone: nothing is asked about
who else maps a page, so that they hold for page tables that have pages in common with others
too.

`kfree` panics if a page is not one of the allocator's, `mappages` if an entry is there, and
`freewalk` if one is left.
-/

namespace Xv6.Vm

open Function (update update_self update_of_ne update_eq_self update_idem)
open Outcome
open Multiset (cons_add cons_coe mem_add mem_singleton mem_sum singleton_add)

/-- The pages mapped below virtual page `top`, each as often as it is mapped. -/
def userPages (leaf : Nat → Option Pte) (top : Nat) : Multiset Nat :=
  ∑ v ∈ Finset.range top, (leaf v).elim 0 fun pte => {pte.ppn}

/-- The pages at hand: the free ones, those of the tables, and those mapped below `top`. -/
def stock (k : Kmem) (pt : PageTable) (top : Nat) : Multiset Nat :=
  k.free + pt.pages + userPages pt.lookup top

/-- Pages have been moved, and the content of those in `H` changed, but none has come or gone. -/
structure Moved (H : Multiset Nat) (k : Kmem) (pt : PageTable) (top : Nat) (k' : Kmem)
    (pt' : PageTable) (top' : Nat) : Prop where
  pages : stock k' pt' top' = stock k pt top
  within : k.Within H k'

/-- A page at hand that `kfree` does not take. -/
def Unfit (k : Kmem) (H : Multiset Nat) : Prop := ∃ x ∈ H, ¬ k.Fit x

/-! ## User pages -/

section UserPages

variable {leaf leaf' : Nat → Option Pte} {top v x : Nat}

theorem userPages_zero (leaf : Nat → Option Pte) : userPages leaf 0 = 0 := rfl

theorem userPages_succ (leaf : Nat → Option Pte) (top : Nat) :
    userPages leaf (top + 1) = userPages leaf top + (leaf top).elim 0 fun pte => {pte.ppn} :=
  Finset.sum_range_succ _ _

theorem userPages_congr (same : ∀ v < top, leaf' v = leaf v) :
    userPages leaf' top = userPages leaf top := by
  refine Finset.sum_congr rfl fun v mem => ?_
  rw [same v (Finset.mem_range.mp mem)]

theorem userPages_update (leaf : Nat → Option Pte) (inside : v < top) (pte : Option Pte) :
    userPages (update leaf v pte) top + (leaf v).elim 0 (fun pte => {pte.ppn}) =
      userPages leaf top + pte.elim 0 fun pte => {pte.ppn} := by
  have mem := Finset.mem_range.mpr inside
  have others : ∑ w ∈ (Finset.range top).erase v,
      (update leaf v pte w).elim 0 (fun pte => ({pte.ppn} : Multiset Nat)) =
      ∑ w ∈ (Finset.range top).erase v, (leaf w).elim 0 fun pte => {pte.ppn} := by
    refine Finset.sum_congr rfl fun w out => ?_
    rw [update_of_ne (Finset.ne_of_mem_erase out)]
  unfold userPages
  rw [← Finset.add_sum_erase _ _ mem, others,
    ← Finset.add_sum_erase (Finset.range top)
      (fun w => (leaf w).elim 0 fun pte => ({pte.ppn} : Multiset Nat)) mem,
    update_self]
  abel

theorem userPages_raise (le : top ≤ top') (unmapped : ∀ v, top ≤ v → v < top' → leaf v = none) :
    userPages leaf top' = userPages leaf top := by
  induction top', le using Nat.le_induction with
  | base => rfl
  | succ n le rest =>
    rw [userPages_succ, unmapped n le (Nat.lt_succ_self n),
      rest fun v low high => unmapped v low (Nat.lt_succ_of_lt high)]
    exact add_zero _

theorem userPages_none (unmapped : ∀ v < top, leaf v = none) : userPages leaf top = 0 :=
  userPages_raise (Nat.zero_le top) fun v _ high => unmapped v high

theorem mem_userPages : x ∈ userPages leaf top ↔ ∃ v < top, ∃ pte, leaf v = some pte ∧
    pte.ppn = x := by
  unfold userPages
  rw [mem_sum]
  refine exists_congr fun v => and_congr Finset.mem_range ?_
  cases leaf v with
  | none => simp
  | some pte => simp [eq_comm]

theorem userPages_insert (inside : v < top) (unmapped : leaf v = none) (pte : Pte) :
    userPages (update leaf v (some pte)) top = pte.ppn ::ₘ userPages leaf top := by
  have inserted := userPages_update leaf inside (some pte)
  rw [unmapped, Option.elim_none, add_zero] at inserted
  rw [inserted, ← singleton_add, add_comm]
  rfl

end UserPages

section Moved

variable {H H' : Multiset Nat} {k k1 k2 : Kmem} {pt pt1 pt2 : PageTable} {top top1 top2 : Nat}

theorem Moved.refl (H : Multiset Nat) (k : Kmem) (pt : PageTable) (top : Nat) :
    Moved H k pt top k pt top :=
  ⟨rfl, .refl k _⟩

theorem Moved.trans (one : Moved H k pt top k1 pt1 top1) (two : Moved H k1 pt1 top1 k2 pt2 top2) :
    Moved H k pt top k2 pt2 top2 :=
  ⟨two.pages.trans one.pages, one.within.trans two.within⟩

theorem Unfit.before (unfit : Unfit k1 H) (within : k.Within H' k1) : Unfit k H := by
  obtain ⟨x, mem, unfit⟩ := unfit
  refine ⟨x, mem, fun fit => unfit ?_⟩
  unfold Kmem.Fit
  rw [within.first]
  exact fit

theorem stock_raise (k : Kmem) (le : top ≤ top1)
    (unmapped : ∀ v, top ≤ v → v < top1 → pt.lookup v = none) :
    stock k pt top1 = stock k pt top := by
  unfold stock
  rw [userPages_raise le unmapped]

theorem stock_succ (k : Kmem) (unmapped : pt.lookup top = none) :
    stock k pt (top + 1) = stock k pt top :=
  stock_raise k (Nat.le_succ top) fun v low high => by rw [show v = top by omega, unmapped]

end Moved

/-! ## Unmapping and mapping -/

section Rules

variable {H : Multiset Nat} {k : Kmem} {pt : PageTable} {top : Nat}

theorem uvmunmap_free (n : Nat) : ∀ (pt : PageTable) (k : Kmem) (vpn : Nat), vpn + n ≤ top →
    (∀ v pte, vpn ≤ v → v < vpn + n → pt.lookup v = some pte → pte.ppn ∈ H) →
    Ends (fun e => e = .walk ∧ MAXVPN < vpn + n ∨ e = .kfree ∧ Unfit k H)
      (fun (pt', k') => Moved H k pt top k' pt' top ∧ pt'.pages = pt.pages ∧
        pt'.lookup = clearRange pt.lookup vpn n)
      (uvmunmap pt k vpn n true) := by
  induction n with
  | zero =>
    intro pt k vpn _ _
    exact .ok ⟨.refl H k pt top, rfl, (clearRange_zero pt.lookup vpn).symm⟩
  | succ n rest =>
    intro pt k vpn inside mine
    rw [← clearRange_succ, show vpn + (n + 1) = vpn + 1 + n by omega]
    unfold uvmunmap
    split
    · next high => exact .error (.inl ⟨rfl, by omega⟩)
    rename_i small
    split
    · next unmapped =>
      rw [← unmapped, update_eq_self]
      exact rest pt k (vpn + 1) (by omega) fun v pte low high => mine v pte (by omega) (by omega)
    rename_i pte mapped
    have path := PageTable.low_of_lookup (by rw [mapped]; simp)
    have leaf := PageTable.setLeaf_lookup path (by unfold MAXVPN at small; omega) none
    have held : pte.ppn ∈ H := mine vpn pte le_rfl (by omega) mapped
    refine ((k.kfree_fit pte.ppn).errors fun e unfit => .inr ⟨unfit.1, _, held, unfit.2⟩).bind ?_
    intro k1 ⟨freed, within⟩
    have moved : Moved H k pt top k1 (pt.setLeaf vpn none) top := by
      constructor
      · have cleared := userPages_update pt.lookup (by omega : vpn < top) none
        rw [mapped, Option.elim_none, add_zero] at cleared
        unfold stock
        rw [PageTable.setLeaf_pages, leaf, freed, ← cons_coe,
          ← singleton_add, ← cleared]
        dsimp only [Option.elim_some]
        abel
      · refine within.mono fun x mem => ?_
        rw [mem_singleton.mp mem]
        exact held
    rw [← leaf]
    refine (rest (pt.setLeaf vpn none) k1 (vpn + 1) (by omega) fun v pte low high mapped => ?_).mono
      (fun e failed => failed.imp_right fun ⟨same, unfit⟩ => ⟨same, unfit.before moved.within⟩) ?_
    · rw [leaf, update_of_ne (by omega)] at mapped
      exact mine v pte (by omega) (by omega) mapped
    · intro ⟨pt', k'⟩ ⟨moved', pages, cleared⟩
      exact ⟨moved.trans moved', pages.trans (PageTable.setLeaf_pages pt vpn none), cleared⟩

/-- Pages have been taken off the free list, and only these are written to. -/
structure Drew (k : Kmem) (pt : PageTable) (top : Nat) (k' : Kmem) (pt' : PageTable) (top' : Nat) :
    Prop extends Moved k.free k pt top k' pt' top' where
  sub : ∀ x ∈ k'.free, x ∈ k.free
  nodup : k.free.Nodup → k'.free.Nodup

theorem Drew.refl (k : Kmem) (pt : PageTable) (top : Nat) : Drew k pt top k pt top :=
  ⟨.refl _ k pt top, fun _ mem => mem, id⟩

theorem Drew.trans (one : Drew k pt top k1 pt1 top1) (two : Drew k1 pt1 top1 k2 pt2 top2) :
    Drew k pt top k2 pt2 top2 where
  pages := two.pages.trans one.pages
  within := one.within.trans (two.within.mono fun x mem => one.sub x mem)
  sub x mem := one.sub x (two.sub x mem)
  nodup nodup := two.nodup (one.nodup nodup)

theorem Drew.lower (drew : Drew k pt (a + 1) k' pt' b) (unmapped : pt.lookup a = none) :
    Drew k pt a k' pt' b :=
  { drew with pages := drew.pages.trans (stock_succ k unmapped) }

/-- What a new page is filled with: zeros, or the content of another page. -/
def Kmem.content (k : Kmem) : Option Nat → Page
  | none => fun _ => 0
  | some x => k.mem x

/-- From page `a` to page `b`, where nothing was mapped, there are pages that were free, with the
permissions and the content that `want` asks for. -/
structure Laid (k k' : Kmem) (want : Nat → Option (Perm × Option Nat)) (leaf : Nat → Option Pte)
    (a b : Nat) (leaf' : Nat → Option Pte) : Prop where
  unmapped : ∀ v, a ≤ v → v < b → leaf v = none
  hole : ∀ v, a ≤ v → v < b → want v = none → leaf' v = none
  page : ∀ v perm src, a ≤ v → v < b → want v = some (perm, src) → ∃ page ∈ k.free,
    leaf' v = some ⟨page, perm⟩ ∧ (k.free.Nodup → page ∉ k'.free ∧
      ((∀ x ∈ src, x ∉ k.free) → k'.mem page = k.content src))
  outside : ∀ v, ¬ (a ≤ v ∧ v < b) → leaf' v = leaf v

section Laid

variable {k k1 k2 : Kmem} {pt pt1 pt2 : PageTable} {top top1 top2 a b c : Nat}
  {want : Nat → Option (Perm × Option Nat)} {leaf leaf1 leaf2 : Nat → Option Pte}

theorem Laid.refl (k : Kmem) (want : Nat → Option (Perm × Option Nat)) (leaf : Nat → Option Pte)
    (a : Nat) : Laid k k want leaf a a leaf :=
  ⟨fun _ low high => absurd high (not_lt.mpr low),
    fun _ low high => absurd high (not_lt.mpr low),
    fun _ _ _ low high => absurd high (not_lt.mpr low), fun _ _ => rfl⟩

theorem Laid.unmapped_first (laid : Laid k k1 want leaf a (a + 1) leaf1) : leaf a = none :=
  laid.unmapped a le_rfl (Nat.lt_succ_self a)

theorem Laid.skip (k : Kmem) (unmapped : leaf a = none) (hole : want a = none) :
    Laid k k want leaf a (a + 1) leaf := by
  have here {v : Nat} (low : a ≤ v) (high : v < a + 1) : v = a := by omega
  refine ⟨fun v low high => here low high ▸ unmapped, fun v low high _ => here low high ▸ unmapped,
    fun v perm src low high wanted => ?_, fun _ _ => rfl⟩
  rw [here low high, hole] at wanted
  cases wanted

theorem Laid.earlier (laid : Laid k1 k2 want leaf a b leaf1) (sub : ∀ x ∈ k1.free, x ∈ k.free)
    (nodup : k.free.Nodup → k1.free.Nodup) (within : k.Within k.free k1) :
    Laid k k2 want leaf a b leaf1 := by
  refine ⟨laid.unmapped, laid.hole, fun v perm src low high wanted => ?_, laid.outside⟩
  obtain ⟨page, mem, mapped, content⟩ := laid.page v perm src low high wanted
  refine ⟨page, sub page mem, mapped, fun isNodup => ?_⟩
  obtain ⟨out, content⟩ := content (nodup isNodup)
  refine ⟨out, fun away => ?_⟩
  rw [content fun x is mem => away x is (sub x mem)]
  cases src with
  | none => rfl
  | some x => exact within.mem x (away x rfl)

theorem Laid.trans (one : Laid k k1 want leaf a b leaf1) (two : Laid k1 k2 want leaf1 b c leaf2)
    (drew : Drew k pt top k1 pt1 top1) (drew' : Drew k1 pt1 top1 k2 pt2 top2) (le : a ≤ b)
    (le' : b ≤ c) : Laid k k2 want leaf a c leaf2 := by
  refine ⟨fun v low high => ?_, fun v low high hole => ?_, fun v perm src low high wanted => ?_,
    fun v out => ?_⟩
  · by_cases first : v < b
    · exact one.unmapped v low first
    · rw [← one.outside v (by omega), two.unmapped v (by omega) high]
  · by_cases first : v < b
    · rw [two.outside v (by omega), one.hole v low first hole]
    · exact two.hole v (by omega) high hole
  · by_cases first : v < b
    · obtain ⟨page, mem, mapped, content⟩ := one.page v perm src low first wanted
      rw [two.outside v (by omega)]
      refine ⟨page, mem, mapped, fun nodup => ?_⟩
      obtain ⟨out, content⟩ := content nodup
      refine ⟨fun mem => out (drew'.sub page mem), fun away => ?_⟩
      rw [drew'.within.mem page out, content away]
    · exact (two.earlier drew.sub drew.nodup drew.within).page v perm src (by omega) high wanted
  · rw [two.outside v (by omega), one.outside v (by omega)]

end Laid

/-- What `kalloc` and `mappages` of the new page have done when `mappages` has failed: the page
is in the caller's hands. -/
structure Drawn (k : Kmem) (pt : PageTable) (page : Nat) (k' : Kmem) (pt' : PageTable) : Prop where
  pages : page ::ₘ ((k'.free : Multiset Nat) + pt'.pages) = k.free + pt.pages
  within : k.Within k.free k'
  mem : page ∈ k.free
  leaf : pt'.lookup = pt.lookup

theorem not_blocked {leaf : Nat → Option Pte} {e : Panic} (small : v < MAXVPN)
    (unmapped : leaf v = none) : ¬ (e = .walk ∧ MAXVPN ≤ v ∨ e = .remap ∧ (leaf v).isSome) := by
  rintro (⟨_, high⟩ | ⟨_, present⟩)
  · omega
  · rw [unmapped] at present
    cases present

theorem mappages_new (pt : PageTable) (v : Nat) (perm : Perm) (src : Option Nat)
    (alloc : k.kalloc = some (page, k1)) (within : k1.Within {page} k2) (same : k2.free = k1.free)
    (content : (∀ x ∈ src, x ∉ k.free) → k2.mem page = k.content src) :
    Ends (fun e => e = .walk ∧ MAXVPN ≤ v ∨ e = .remap ∧ (pt.lookup v).isSome)
      (fun (pt', k', ok) => v < MAXVPN ∧
        if ok then pt'.lookup = update pt.lookup v (some ⟨page, perm⟩) ∧
            (∀ top, v < top → Drew k pt top k' pt' top) ∧ (∀ want, want v = some (perm, src) →
              Laid k k' want pt.lookup v (v + 1) pt'.lookup)
          else Drawn k pt page k' pt')
      (mappages pt k2 v page perm) := by
  have free := Kmem.kalloc_free alloc
  apply (mappages_ends pt k2 v page perm).imp
  intro ⟨pt', k', ok⟩ ⟨walked, small, result⟩
  have sub := walked.free
  have pages := walked.pages
  rw [same] at sub pages
  have isPage : page ∈ k.free := by
    rw [free]
    exact List.mem_cons_self
  have fewer (x : Nat) (mem : x ∈ k'.free) : x ∈ k.free := by
    rw [free]
    exact List.mem_cons_of_mem _ (sub.subset mem)
  have wrote : k.Within k.free k' := by
    refine (((Kmem.kalloc_within alloc).trans within).mono fun x mem => ?_).trans
      (walked.within.mono fun x mem => ?_)
    · rw [mem_singleton.mp mem]
      exact isPage
    · rw [same] at mem
      rw [free]
      exact List.mem_cons_of_mem _ mem
  have sum : page ::ₘ ((k'.free : Multiset Nat) + pt'.pages) = k.free + pt.pages := by
    rw [pages, free, ← cons_coe, cons_add]
  refine ⟨small, ?_⟩
  cases ok with
  | false => exact ⟨sum, wrote, isPage, result⟩
  | true =>
    obtain ⟨unmapped, leaf⟩ := result
    have here {w : Nat} (low : v ≤ w) (high : w < v + 1) : w = v := by omega
    refine ⟨leaf, fun top inside => ⟨⟨?_, wrote⟩, fewer, fun nodup => ?_⟩, fun want wanted =>
      ⟨fun w low high => here low high ▸ unmapped, fun w low high hole => ?_,
        fun w perm' src' low high wanted' => ?_, fun w out => ?_⟩⟩
    · unfold stock
      rw [leaf, userPages_insert inside unmapped, ← sum, Multiset.add_cons, cons_add]
    · rw [free] at nodup
      exact (List.nodup_cons.mp nodup).2.sublist sub.sublist
    · rw [here low high, wanted] at hole
      cases hole
    · rw [here low high, wanted] at wanted'
      cases wanted'
      refine ⟨page, isPage, by rw [here low high, leaf, update_self], fun nodup => ?_⟩
      rw [free] at nodup
      have out := (List.nodup_cons.mp nodup).1
      refine ⟨fun mem => out (sub.subset mem), fun away => ?_⟩
      rw [walked.within.mem page (by rw [same]; exact out), content away]
    · rw [leaf, update_of_ne (by omega)]

theorem Drawn.refund (drawn : Drawn k pt page k' pt') (top : Nat) (sub : ∀ x ∈ k.free, x ∈ H) :
    Ends (fun e => e = .kfree ∧ Unfit k H) (fun k'' => Moved H k pt top k'' pt' top)
      (k'.kfree page) := by
  have within : k.Within H k' := drawn.within.mono fun x mem => sub x mem
  have mem := sub page drawn.mem
  refine (k'.kfree_fit page).mono (fun e ⟨same, unfit⟩ => ⟨same, ?_⟩) ?_
  · exact Unfit.before ⟨page, mem, unfit⟩ within
  intro k'' ⟨freed, wrote⟩
  constructor
  · unfold stock
    rw [drawn.leaf, freed, ← drawn.pages, ← cons_coe, cons_add]
  · refine within.trans (wrote.mono fun x here => ?_)
    rw [mem_singleton.mp here]
    exact mem

/-! ## Growing and shrinking -/

theorem npg_zero : npg 0 = 0 := by decide

theorem npg_mul (a : Nat) : npg (a * PGSIZE) = a := by
  unfold npg PGSIZE
  omega

theorem npg_mono (le : m ≤ n) : npg m ≤ npg n := by
  unfold npg PGSIZE
  omega

theorem npg_le (le : ¬ sz > a * PGSIZE) : npg sz ≤ a := by
  have := npg_mono (Nat.le_of_not_lt le)
  rwa [npg_mul] at this

theorem div_lt_npg (lt : va < sz) : va / PGSIZE < npg sz := by
  unfold npg PGSIZE
  omega

theorem uvmunmap_top (pt : PageTable) (k : Kmem) (base n : Nat)
    (mine : ∀ v pte, base ≤ v → v < base + n → pt.lookup v = some pte → pte.ppn ∈ H) :
    Ends (fun e => e = .walk ∧ MAXVPN < base + n ∨ e = .kfree ∧ Unfit k H)
      (fun (pt', k') => Moved H k pt (base + n) k' pt' base ∧
        pt'.lookup = clearRange pt.lookup base n)
      (uvmunmap pt k base n true) := by
  apply (uvmunmap_free n pt k base le_rfl mine).imp
  intro ⟨pt', k'⟩ ⟨moved, _, cleared⟩
  refine ⟨⟨?_, moved.within⟩, cleared⟩
  rw [← moved.pages]
  refine (stock_raise k' (Nat.le_add_right base n) fun v low high => ?_).symm
  rw [cleared]
  exact if_pos ⟨low, high⟩

theorem uvmdealloc_ends (pt : PageTable) (k : Kmem) (oldsz newsz : Nat)
    (mine : ∀ v pte, npg newsz ≤ v → v < npg oldsz → pt.lookup v = some pte → pte.ppn ∈ H) :
    Ends (fun e => e = .walk ∧ MAXVPN < npg oldsz ∨ e = .kfree ∧ Unfit k H)
      (fun (pt', k', sz) => sz = min oldsz newsz ∧ Moved H k pt (npg oldsz) k' pt' (npg sz) ∧
        pt'.lookup = clearRange pt.lookup (npg sz) (npg oldsz - npg sz))
      (uvmdealloc pt k oldsz newsz) := by
  unfold uvmdealloc
  split
  · next ge =>
    refine .ok ⟨(Nat.min_eq_left ge).symm, .refl H k pt _, ?_⟩
    rw [Nat.sub_self, clearRange_zero]
  have range := Nat.add_sub_cancel' (npg_mono (by omega) : npg newsz ≤ npg oldsz)
  have unmap := uvmunmap_top (H := H) pt k (npg newsz) (npg oldsz - npg newsz)
    (by rw [range]; exact mine)
  rw [range] at unmap
  refine unmap.bind ?_
  intro ⟨pt', k'⟩ ⟨moved, cleared⟩
  exact .ok ⟨by omega, moved, cleared⟩

/-- Why a range of pages cannot be mapped: it is too high, or something is there. -/
def Blocked (leaf : Nat → Option Pte) (a b : Nat) (e : Panic) : Prop :=
  ∃ v, a ≤ v ∧ v < b ∧ (e = .walk ∧ MAXVPN ≤ v ∨ e = .remap ∧ (leaf v).isSome)

theorem clearRange_extend (le : base ≤ a) (unmapped : leaf a = none)
    (other : ∀ v, v ≠ a → leaf' v = leaf v) :
    clearRange leaf' base (a + 1 - base) = clearRange leaf base (a - base) := by
  funext v
  unfold clearRange
  by_cases here : v = a
  · rw [here, unmapped, if_pos (by omega), ite_self]
  · rw [other v here]
    by_cases inside : base ≤ v ∧ v < base + (a - base)
    · rw [if_pos inside, if_pos (by omega)]
    · rw [if_neg inside, if_neg (by omega)]

section Grew

variable {want : Nat → Option (Perm × Option Nat)} {base a b : Nat} {done failed : Prop}
  {k1 k' : Kmem} {pt1 pt' : PageTable}

/-- How a loop that allocates pages and maps them ends: it is done with those from `a` to `b`, or
it has failed, and those from `base` on are gone again. -/
def Grew (H : Multiset Nat) (base : Nat) (want : Nat → Option (Perm × Option Nat)) (k : Kmem)
    (pt : PageTable) (a b : Nat) (done failed : Prop) (k' : Kmem) (pt' : PageTable) : Prop :=
  done ∧ Drew k pt a k' pt' b ∧ Laid k k' want pt.lookup a b pt'.lookup ∨
    failed ∧ Moved H k pt a k' pt' base ∧ pt'.lookup = clearRange pt.lookup base (a - base)

theorem Grew.next (le : base ≤ a) (lt : a < b) (sub : ∀ x ∈ k.free, x ∈ H)
    (drew : Drew k pt a k1 pt1 (a + 1)) (laid : Laid k k1 want pt.lookup a (a + 1) pt1.lookup)
    (rest : Grew H base want k1 pt1 (a + 1) b done failed k' pt') :
    Grew H base want k pt a b done failed k' pt' := by
  rcases rest with ⟨isDone, drew', laid'⟩ | ⟨isFailed, moved, cleared⟩
  · exact .inl ⟨isDone, drew.trans drew', laid.trans laid' drew drew' (Nat.le_succ a) lt⟩
  · refine .inr ⟨isFailed, ⟨moved.pages.trans drew.pages, (drew.within.mono fun x mem =>
      sub x mem).trans moved.within⟩, ?_⟩
    rw [cleared, clearRange_extend le laid.unmapped_first fun v other => laid.outside v (by omega)]

theorem Laid.mine (laid : Laid k k1 want leaf a (a + 1) leaf1) (sub : ∀ x ∈ k.free, x ∈ H)
    (mine : ∀ v pte, base ≤ v → v < a → leaf v = some pte → pte.ppn ∈ H) (v : Nat) (pte : Pte)
    (low : base ≤ v) (high : v < a + 1) (mapped : leaf1 v = some pte) : pte.ppn ∈ H := by
  by_cases here : v = a
  · cases wanted : want v with
    | none =>
      rw [laid.hole v (by omega) high wanted] at mapped
      cases mapped
    | some entry =>
      obtain ⟨page, mem, isPage, _⟩ := laid.page v entry.1 entry.2 (by omega) high wanted
      rw [isPage] at mapped
      cases mapped
      exact sub page mem
  · rw [laid.outside v (by omega)] at mapped
    exact mine v pte low (by omega) mapped

end Grew

theorem uvmallocFrom_ends (base newsz : Nat) (perm : Perm) (n : Nat) :
    ∀ (a : Nat) (pt : PageTable) (k : Kmem), a ≤ MAXVPN → base ≤ a → (∀ x ∈ k.free, x ∈ H) →
    (∀ v pte, base ≤ v → v < a → pt.lookup v = some pte → pte.ppn ∈ H) →
    Ends (fun e => e = .kfree ∧ Unfit k H ∨ Blocked pt.lookup a (a + n) e)
      (fun (pt', k', sz) => Grew H base (fun _ => some (perm, none)) k pt a (a + n) (sz = newsz)
        (sz = 0) k' pt')
      (uvmallocFrom base newsz perm n a pt k) := by
  induction n with
  | zero =>
    intro a pt k _ _ _ _
    exact .ok (.inl ⟨rfl, .refl k pt a, .refl k _ pt.lookup a⟩)
  | succ n rest =>
    intro a pt k small le sub mine
    -- on failure the pages allocated so far are unmapped and freed again
    have undo {pt1 : PageTable} {k1 : Kmem} (moved : Moved H k pt a k1 pt1 a)
        (leaf : pt1.lookup = pt.lookup) :
        Ends (fun e => e = .kfree ∧ Unfit k H ∨ Blocked pt.lookup a (a + (n + 1)) e)
          (fun (pt', k', sz) => Grew H base (fun _ => some (perm, none)) k pt a (a + (n + 1))
            (sz = newsz) (sz = 0) k' pt')
          (do let (pt, k, _) ← uvmdealloc pt1 k1 (a * PGSIZE) (base * PGSIZE)
              .ok (pt, k, 0)) := by
      have dealloc := uvmdealloc_ends (H := H) pt1 k1 (a * PGSIZE) (base * PGSIZE)
        (by rw [npg_mul, npg_mul, leaf]; exact mine)
      rw [npg_mul, leaf] at dealloc
      refine (dealloc.errors ?_).bind ?_
      · rintro e (⟨_, high⟩ | ⟨same, unfit⟩)
        · omega
        · exact .inl ⟨same, unfit.before moved.within⟩
      intro ⟨pt', k', sz⟩ ⟨same, moved', cleared⟩
      rw [same, Nat.min_eq_right (Nat.mul_le_mul_right _ le), npg_mul] at moved' cleared
      exact .ok (.inr ⟨rfl, moved.trans moved', cleared⟩)
    unfold uvmallocFrom
    split
    · exact undo (.refl H k pt a) rfl
    rename_i page k1 alloc
    refine ((mappages_new pt a perm none alloc (k1.memset_within page 0) rfl
      fun _ => update_self ..).errors
        fun e blocked => .inr ⟨a, le_rfl, by omega, blocked⟩).bind ?_
    intro ⟨pt', k', ok⟩ ⟨inside, result⟩
    cases ok with
    | true =>
      obtain ⟨_, drew, laid⟩ := result
      have laid := laid (fun _ => some (perm, none)) rfl
      have drew := (drew (a + 1) (Nat.lt_succ_self a)).lower laid.unmapped_first
      rw [show a + (n + 1) = a + 1 + n by omega]
      refine (rest (a + 1) pt' k' inside (by omega) (fun x mem => sub x (drew.sub x mem))
        (laid.mine sub mine)).mono ?_ fun result => .next le (by omega) sub drew laid
      rintro e (⟨same, unfit⟩ | ⟨v, low, high, blocked⟩)
      · exact .inl ⟨same, unfit.before drew.within⟩
      · rw [laid.outside v (by omega)] at blocked
        exact .inr ⟨v, by omega, high, blocked⟩
    | false =>
      refine ((result.refund a sub).errors fun e unfit => .inl unfit).bind ?_
      intro k'' moved
      exact undo moved result.leaf

theorem uvmalloc_ends (pt : PageTable) (k : Kmem) (small : npg oldsz ≤ MAXVPN) (newsz : Nat)
    (xperm : Perm) :
    Ends (fun e => e = .kfree ∧ Unfit k k.free ∨ Blocked pt.lookup (npg oldsz) (npg newsz) e)
      (fun (pt', k', sz) =>
        sz = max oldsz newsz ∧ Drew k pt (npg oldsz) k' pt' (npg sz) ∧
            Laid k k' (fun _ => some ({ xperm with r := true, u := true }, none)) pt.lookup
              (npg oldsz) (npg sz) pt'.lookup ∨
          sz = 0 ∧ Moved k.free k pt (npg oldsz) k' pt' (npg oldsz) ∧ pt'.lookup = pt.lookup)
      (uvmalloc pt k oldsz newsz xperm) := by
  unfold uvmalloc
  split
  · next lt => exact .ok (.inl ⟨by omega, .refl k pt _, .refl k _ pt.lookup _⟩)
  rename_i ge
  have le : npg oldsz ≤ npg newsz := npg_mono (Nat.le_of_not_lt ge)
  have loop := uvmallocFrom_ends (H := k.free) (npg oldsz) newsz { xperm with r := true, u := true }
    (npg newsz - npg oldsz) (npg oldsz) pt k small le_rfl (fun _ mem => mem)
    fun v pte low high => absurd high (not_lt.mpr low)
  rw [Nat.add_sub_cancel' le] at loop
  apply loop.imp
  rintro ⟨pt', k', sz⟩ (⟨rfl, drew, laid⟩ | ⟨failed, moved, cleared⟩)
  · exact .inl ⟨by omega, drew, laid⟩
  · rw [Nat.sub_self, clearRange_zero] at cleared
    exact .inr ⟨failed, moved, cleared⟩

/-! ## Page faults and `copyout` -/

theorem vmfault_ends (pagetable cur : PageTable) (sz : Nat) (k : Kmem) (va : Nat) :
    Ends (fun e => e = .walk ∧ MAXVPN ≤ va / PGSIZE ∨ e = .kfree ∧ Unfit k k.free ∨
        e = .remap ∧ pagetable.lookup (va / PGSIZE) = none ∧ (cur.lookup (va / PGSIZE)).isSome)
      (fun (cur', k', pa) => Moved k.free k cur (npg sz) k' cur' (npg sz) ∧
        (match pa with
          | none => cur'.lookup = cur.lookup
          | some page => va < sz ∧ cur.lookup (va / PGSIZE) = none ∧ cur'.lookup =
              update cur.lookup (va / PGSIZE) (some ⟨page, { r := true, w := true, u := true }⟩)) ∧
        ((va < sz → (pagetable.lookup (va / PGSIZE)).isSome) → cur' = cur ∧ k' = k ∧ pa = none))
      (vmfault pagetable cur sz k va) := by
  have still : Moved k.free k cur (npg sz) k cur (npg sz) ∧ cur.lookup = cur.lookup ∧
      ((va < sz → (pagetable.lookup (va / PGSIZE)).isSome) →
        cur = cur ∧ k = k ∧ (none : Option Nat) = none) :=
    ⟨.refl _ _ _ _, rfl, fun _ => ⟨rfl, rfl, rfl⟩⟩
  unfold vmfault
  split
  · exact .ok still
  rename_i lt
  have inside : va / PGSIZE < npg sz := div_lt_npg (Nat.lt_of_not_le lt)
  split
  · next high => exact .error (.inl ⟨rfl, high⟩)
  split
  · exact .ok still
  rename_i absent
  have ready (all : va < sz → (pagetable.lookup (va / PGSIZE)).isSome) {C : Prop} : C :=
    absurd (all (Nat.lt_of_not_le lt)) absent
  split
  · exact .ok still
  rename_i page k1 alloc
  refine ((mappages_new cur (va / PGSIZE) { r := true, w := true, u := true } none alloc
    (k1.memset_within page 0) rfl fun _ => update_self ..).errors ?_).bind ?_
  · rintro e (high | ⟨same, present⟩)
    · exact .inl high
    · exact .inr (.inr ⟨same, by simpa using absent, present⟩)
  intro ⟨cur', k', ok⟩ ⟨_, result⟩
  cases ok with
  | true =>
    obtain ⟨leaf, drew, laid⟩ := result
    have unmapped := (laid (fun _ => some (_, none)) rfl).unmapped_first
    exact .ok ⟨(drew _ inside).toMoved, ⟨Nat.lt_of_not_le lt, unmapped, leaf⟩,
      fun all => ready all⟩
  | false =>
    refine ((result.refund (npg sz) fun _ mem => mem).errors
      fun e unfit => .inr (.inl unfit)).bind ?_
    intro k'' moved
    exact .ok ⟨moved, result.leaf, fun all => ready all⟩

/-- Pages below `top` have been faulted in; what was mapped still is. -/
structure Faulted (k : Kmem) (pt : PageTable) (top : Nat) (k' : Kmem) (pt' : PageTable) : Prop where
  pages : stock k' pt' top = stock k pt top
  kept : ∀ v, pt'.lookup v = pt.lookup v ∨ v < top ∧ pt.lookup v = none

theorem Faulted.refl (k : Kmem) (pt : PageTable) (top : Nat) : Faulted k pt top k pt :=
  ⟨rfl, fun _ => .inl rfl⟩

theorem Faulted.trans (one : Faulted k pt top k1 pt1) (two : Faulted k1 pt1 top k2 pt2) :
    Faulted k pt top k2 pt2 := by
  refine ⟨two.pages.trans one.pages, fun v => ?_⟩
  rcases one.kept v with same | new
  · rw [← same]
    exact two.kept v
  · exact .inr new

/-- The pages that the `len` bytes from `addr` on reach are mapped, where there are any. -/
def Ready (leaf : Nat → Option Pte) (sz addr len : Nat) : Prop :=
  ∀ v < npg sz, addr / PGSIZE ≤ v → v * PGSIZE < addr + len → (leaf v).isSome

/-- The loop of `copyout`. It takes no page where the memory is there. -/
theorem copyoutFrom_ends (other : Option PageTable) (passes : Nat) :
    ∀ (cur : PageTable) (k : Kmem) (dstva : Nat) (src : List UInt8),
    Ends (· ≠ .freewalkLeaf)
      (fun (cur', k', _) => Faulted k cur (npg sz) k' cur' ∧
        (Ready (other.getD cur).lookup sz dstva src.length → cur' = cur ∧ k'.free = k.free))
      (copyoutFrom other sz passes cur k dstva src) := by
  induction passes with
  | zero =>
    intro cur k dstva src
    exact .ok ⟨.refl _ _ _, fun _ => ⟨rfl, rfl⟩⟩
  | succ passes rest =>
    intro cur k dstva src
    unfold copyoutFrom
    split
    · exact .ok ⟨.refl _ _ _, fun _ => ⟨rfl, rfl⟩⟩
    rename_i more
    have positive := List.length_pos_of_ne_nil more
    split
    · exact .ok ⟨.refl _ _ _, fun _ => ⟨rfl, rfl⟩⟩
    have page : Ends (· ≠ .freewalkLeaf)
        (fun (cur', k', _) => Faulted k cur (npg sz) k' cur' ∧
          (Ready (other.getD cur).lookup sz dstva src.length → cur' = cur ∧ k'.free = k.free))
        (copyoutPage (other.getD cur) cur sz k (dstva / PGSIZE)) := by
      unfold copyoutPage
      split
      · exact .ok ⟨.refl _ _ _, fun _ => ⟨rfl, rfl⟩⟩
      refine (vmfault_ends (other.getD cur) cur sz k (dstva / PGSIZE * PGSIZE)).mono ?_ ?_
      · rintro e (⟨rfl, _⟩ | ⟨rfl, _⟩ | ⟨rfl, _⟩) <;> decide
      intro ⟨cur', k', pa⟩ ⟨moved, leaf, still⟩
      refine ⟨⟨moved.pages, fun v => ?_⟩, fun ready => ?_⟩
      · cases pa with
        | none => exact .inl (congrFun leaf v)
        | some page =>
          obtain ⟨inside, unmapped, leaf⟩ := leaf
          rw [leaf]
          by_cases here : v = dstva / PGSIZE * PGSIZE / PGSIZE
          · exact .inr ⟨here ▸ div_lt_npg inside, here ▸ unmapped⟩
          · exact .inl (update_of_ne here _ _)
      · obtain ⟨same, sameK, _⟩ := still fun inside => by
          have low := div_lt_npg inside
          rw [Nat.mul_div_cancel _ (by decide)] at low ⊢
          have := Nat.div_mul_le_self dstva PGSIZE
          exact ready _ low le_rfl (by omega)
        exact ⟨same, congrArg Kmem.free sameK⟩
    refine page.bind ?_
    intro ⟨cur', k', pa⟩ ⟨faulted, still⟩
    dsimp only
    split
    · exact .ok ⟨faulted, still⟩
    · exact .error (by decide)
    split
    · refine (rest _ _ _ _).imp ?_
      intro ⟨cur'', k'', ok⟩ ⟨faulted', still'⟩
      refine ⟨faulted.trans ⟨faulted'.pages, faulted'.kept⟩, fun ready => ?_⟩
      obtain ⟨rfl, free⟩ := still ready
      obtain ⟨same, free'⟩ := still' fun v inside low high => by
        rw [Nat.mul_div_cancel _ (by decide)] at low
        rw [List.length_drop] at high
        refine ready v inside (by omega) ?_
        unfold PGSIZE at high ⊢
        omega
      exact ⟨same, free'.trans free⟩
    · exact .ok ⟨faulted, still⟩

theorem uvmclear_ends (k : Kmem) (inside : vpn < top) :
    Ends (· ≠ .freewalkLeaf)
      (fun pt' => stock k pt' top = stock k pt top ∧ ∀ v, v ≠ vpn → pt'.lookup v = pt.lookup v)
      (uvmclear pt vpn) := by
  unfold uvmclear
  split
  · exact .error (by decide)
  rename_i low
  have small : vpn < 2 ^ 27 := by unfold MAXVPN at low; omega
  split
  · exact .error (by decide)
  rename_i path
  split
  · exact .ok ⟨rfl, fun _ _ => rfl⟩
  rename_i pte present
  have mapped : pt.lookup vpn = some pte := by
    rw [PageTable.lookup, if_pos small, path]
    exact present
  have isPath : (pt.low vpn).isSome := by rw [path]; rfl
  have leaf := PageTable.setLeaf_lookup isPath small
    (some { pte with perm := { pte.perm with u := false } })
  refine .ok ⟨?_, fun v other => ?_⟩
  · have same := userPages_update pt.lookup inside
      (some { pte with perm := { pte.perm with u := false } })
    rw [mapped] at same
    unfold stock
    rw [PageTable.setLeaf_pages, leaf, add_right_cancel same]
  · rw [leaf, update_of_ne other]

/-! ## Copying and sharing -/

/-- What `uvmcopy` asks for: the pages of `old`, with their permissions. -/
def copyOf (old : PageTable) (v : Nat) : Option (Perm × Option Nat) :=
  (old.lookup v).map fun pte => (pte.perm, some pte.ppn)

theorem uvmcopyFrom_ends (old : PageTable) (n : Nat) : ∀ (i : Nat) (new : PageTable) (k : Kmem),
    i + n ≤ MAXVPN → (∀ v, i ≤ v → v < i + n → new.lookup v = none) → (∀ x ∈ k.free, x ∈ H) →
    (∀ v pte, 0 ≤ v → v < i → new.lookup v = some pte → pte.ppn ∈ H) →
    Ends (fun e => e = .kfree ∧ Unfit k H)
      (fun (new', k', ok) =>
        Grew H 0 (copyOf old) k new i (i + n) (ok = true) (ok = false) k' new')
      (uvmcopyFrom old n i new k) := by
  induction n with
  | zero =>
    intro i new k _ _ _ _
    exact .ok (.inl ⟨rfl, .refl k new i, .refl k _ new.lookup i⟩)
  | succ n rest =>
    intro i new k small empty sub mine
    have unmapped := empty i le_rfl (by omega)
    have undo {new1 : PageTable} {k1 : Kmem} (moved : Moved H k new i k1 new1 i)
        (leaf : new1.lookup = new.lookup) :
        Ends (fun e => e = .kfree ∧ Unfit k H)
          (fun (new', k', ok) =>
            Grew H 0 (copyOf old) k new i (i + (n + 1)) (ok = true) (ok = false) k' new')
          (do let (new, k) ← uvmunmap new1 k1 0 i true
              .ok (new, k, false)) := by
      have unmap := uvmunmap_top (H := H) new1 k1 0 i (by rw [zero_add, leaf]; exact mine)
      rw [zero_add, leaf] at unmap
      refine (unmap.errors ?_).bind ?_
      · rintro e (⟨_, high⟩ | ⟨same, unfit⟩)
        · omega
        · exact ⟨same, unfit.before moved.within⟩
      intro ⟨new', k'⟩ ⟨moved', cleared⟩
      exact .ok (.inr ⟨rfl, moved.trans moved', cleared⟩)
    -- the page at `i` is done, as a hole or with a copy
    have next {new' : PageTable} {k' : Kmem} (drew : Drew k new i k' new' (i + 1))
        (laid : Laid k k' (copyOf old) new.lookup i (i + 1) new'.lookup) :
        Ends (fun e => e = .kfree ∧ Unfit k H)
          (fun (new', k', ok) =>
            Grew H 0 (copyOf old) k new i (i + (n + 1)) (ok = true) (ok = false) k' new')
          (uvmcopyFrom old n (i + 1) new' k') := by
      rw [show i + (n + 1) = i + 1 + n by omega]
      refine (rest (i + 1) new' k' (by omega) (fun v low high => ?_)
        (fun x mem => sub x (drew.sub x mem)) (laid.mine sub mine)).mono
        (fun e ⟨same, unfit⟩ => ⟨same, unfit.before drew.within⟩)
        fun result => .next (Nat.zero_le i) (by omega) sub drew laid
      rw [laid.outside v (by omega), empty v (by omega) (by omega)]
    unfold uvmcopyFrom
    rw [if_neg (by omega)]
    split
    · next hole =>
      refine next ((Drew.refl k new (i + 1)).lower unmapped) (.skip k unmapped ?_)
      rw [copyOf, hole]
      rfl
    · next pte mapped =>
      split
      · exact undo (.refl H k new i) rfl
      rename_i page k1 alloc
      have wrote : k1.Within {page} (k1.copyPage page pte.ppn) :=
        ⟨rfl, fun x out => update_of_ne
          (fun same => out (mem_singleton.mpr same)) _ _⟩
      refine ((mappages_new new i pte.perm (some pte.ppn) alloc wrote rfl
        fun away => ?_).errors fun e blocked =>
          (not_blocked (by omega) unmapped blocked).elim).bind ?_
      · refine (update_self ..).trans ((Kmem.kalloc_within alloc).mem _ fun same => ?_)
        refine away pte.ppn rfl ?_
        rw [mem_singleton.mp same, Kmem.kalloc_free alloc]
        exact List.mem_cons_self
      intro ⟨new', k', ok⟩ ⟨_, result⟩
      cases ok with
      | true =>
        obtain ⟨_, drew, laid⟩ := result
        refine next ((drew (i + 1) (Nat.lt_succ_self i)).lower unmapped) (laid (copyOf old) ?_)
        rw [copyOf, mapped]
        rfl
      | false =>
        refine (result.refund i sub).bind ?_
        intro k'' moved
        exact undo moved result.leaf

/-- The loop of `uvmshare`: the pages it maps are none of its own, and it does not panic. -/
theorem uvmshareFrom_ends (old : PageTable) (n : Nat) : ∀ (i : Nat) (new : PageTable) (k : Kmem),
    i + n ≤ MAXVPN → (∀ v, i ≤ v → v < i + n → new.lookup v = none) →
    Ends (fun _ => False)
      (fun (new', k', ok) => Walked k new k' new' ∧
        if ok then ∀ v, new'.lookup v = if i ≤ v ∧ v < i + n then old.lookup v else new.lookup v
          else new'.lookup = clearRange new.lookup 0 i)
      (uvmshareFrom old n i new k) := by
  induction n with
  | zero =>
    intro i new k _ _
    exact .ok ⟨.refl k new, fun v => (if_neg (by omega)).symm⟩
  | succ n rest =>
    intro i new k small empty
    have unmapped := empty i le_rfl (by omega)
    have next {new' : PageTable} {k' : Kmem} (walked : Walked k new k' new')
        (here : new'.lookup i = old.lookup i) (other : ∀ v, v ≠ i → new'.lookup v = new.lookup v) :
        Ends (fun _ => False)
          (fun (new', k', ok) => Walked k new k' new' ∧
            if ok then ∀ v, new'.lookup v =
                if i ≤ v ∧ v < i + (n + 1) then old.lookup v else new.lookup v
              else new'.lookup = clearRange new.lookup 0 i)
          (uvmshareFrom old n (i + 1) new' k') := by
      apply (rest (i + 1) new' k' (by omega) fun v low high =>
        (other v (by omega)).trans (empty v (by omega) (by omega))).imp
      intro ⟨new'', k'', ok⟩ ⟨walked', done⟩
      refine ⟨walked.trans walked', ?_⟩
      cases ok with
      | true =>
        intro v
        rw [done v]
        by_cases isHere : v = i
        · rw [if_neg (by omega), if_pos (by omega), isHere, here]
        · rw [other v isHere]
          by_cases later : i + 1 ≤ v ∧ v < i + 1 + n
          · rw [if_pos later, if_pos (by omega)]
          · rw [if_neg later, if_neg (by omega)]
      | false => exact done.trans (clearRange_extend (Nat.zero_le i) unmapped other)
    unfold uvmshareFrom
    rw [if_neg (by omega)]
    split
    · next hole => exact next (.refl k new) (unmapped.trans hole.symm) fun _ _ => rfl
    rename_i pte mapped
    refine ((mappages_ends new k i pte.ppn pte.perm).errors fun e blocked =>
      not_blocked (by omega) unmapped blocked).bind ?_
    intro ⟨new', k', ok⟩ ⟨walked, _, result⟩
    cases ok with
    | true =>
      obtain ⟨_, leaf⟩ := result
      refine next walked ?_ fun v ne => ?_
      · rw [leaf, update_self, mapped]
      · rw [leaf, update_of_ne ne]
    | false =>
      refine ((uvmunmap_ends k' i new' 0).errors fun e high => by omega).bind ?_
      intro ⟨new'', k''⟩ ⟨sameK, samePages, cleared⟩
      refine .ok ⟨?_, ?_⟩
      · rw [sameK]
        exact ⟨by rw [samePages, walked.pages], walked.within, walked.free⟩
      · have leaf : new'.lookup = new.lookup := result
        exact cleared.trans (by rw [leaf])

/-! ## The page table of a process -/

theorem uvmunmap_ok (pt : PageTable) (k : Kmem) (vpn n : Nat) (small : vpn + n ≤ MAXVPN) :
    ∃ pt', uvmunmap pt k vpn n false = .ok (pt', k) ∧ pt'.pages = pt.pages ∧
      pt'.lookup = clearRange pt.lookup vpn n := by
  have ends := uvmunmap_ends k n pt vpn
  cases run : uvmunmap pt k vpn n false with
  | error e =>
    rw [run] at ends
    exact absurd ends.failure.2 (not_lt.mpr small)
  | ok result =>
    rw [run] at ends
    obtain ⟨same, pages, cleared⟩ := ends.value
    obtain ⟨pt', k'⟩ := result
    cases same
    exact ⟨pt', rfl, pages, cleared⟩

/-- What is mapped besides the heap, the trampoline and the trapframe. -/
def Leftover (leaf : Nat → Option Pte) (top : Nat) : Prop :=
  ∃ v pte, top ≤ v ∧ v ≠ trapframeVpn ∧ v ≠ trampolineVpn ∧ leaf v = some pte

theorem takedown_ends (pt : PageTable) (k : Kmem) (fits : npg sz ≤ trapframeVpn) (doFree : Bool) :
    Ends (fun e => e = .kfree ∧
          Unfit k (pt.pages + if doFree then userPages pt.lookup (npg sz) else 0) ∨
        e = .freewalkLeaf ∧ Leftover pt.lookup (npg sz))
      (k.Freed (pt.pages + if doFree then userPages pt.lookup (npg sz) else 0))
      (do let (pt, k) ← uvmunmap pt k trampolineVpn 1 false
          let (pt, k) ← uvmunmap pt k trapframeVpn 1 false
          let (pt, k) ← unmapUser pt k sz doFree
          freewalk pt k) := by
  obtain ⟨pt1, run1, pages1, leaf1⟩ := uvmunmap_ok pt k trampolineVpn 1 (by decide)
  obtain ⟨pt2, run2, pages2, leaf2⟩ := uvmunmap_ok pt1 k trapframeVpn 1 (by decide)
  refine .bind_ok run1 (.bind_ok run2 ?_)
  have samePages : pt2.pages = pt.pages := pages2.trans pages1
  have low (v : Nat) (small : v < npg sz) : pt2.lookup v = pt.lookup v := by
    rw [leaf2, leaf1]
    unfold clearRange
    unfold trampolineVpn
    unfold trapframeVpn at fits ⊢
    rw [if_neg (by omega), if_neg (by omega)]
  generalize isH : (if doFree then userPages pt.lookup (npg sz) else 0) = H
  have unmap : Ends (fun e => e = .kfree ∧ Unfit k H ∨
        e = .freewalkLeaf ∧ Leftover pt.lookup (npg sz))
      (fun (pt3, k3) => k.Freed H k3 ∧ pt3.pages = pt.pages ∧
        pt3.lookup = clearRange pt2.lookup 0 (npg sz))
      (unmapUser pt2 k sz doFree) := by
    unfold unmapUser
    split
    · cases doFree with
      | false =>
        rw [← isH]
        obtain ⟨pt3, run3, pages3, leaf3⟩ := uvmunmap_ok pt2 k 0 (npg sz)
          (by rw [zero_add]; exact Nat.le_trans fits (by decide))
        rw [run3]
        exact .ok ⟨.refl k, pages3.trans samePages, leaf3⟩
      | true =>
        have isH : userPages pt.lookup (npg sz) = H := isH
        refine (uvmunmap_free (H := H) (npg sz) pt2 k 0 (Nat.le_of_eq (zero_add _))
          fun v pte _ high mapped => ?_).mono ?_ ?_
        · rw [zero_add] at high
          rw [low v high] at mapped
          rw [← isH]
          exact mem_userPages.mpr ⟨v, high, pte, mapped, rfl⟩
        · rintro e (⟨_, high⟩ | unfit)
          · exact absurd (Nat.le_trans fits (by decide)) (Nat.not_le.mpr (Nat.zero_add _ ▸ high))
          · exact .inl unfit
        intro ⟨pt3, k3⟩ ⟨moved, pages3, leaf3⟩
        refine ⟨⟨?_, moved.within⟩, pages3.trans samePages, leaf3⟩
        have pages := moved.pages
        have empty : userPages pt3.lookup (npg sz) = 0 := userPages_none fun v high => by
          rw [leaf3]
          exact if_pos (by omega)
        rw [stock, stock, empty, add_zero, pages3, userPages_congr low, isH] at pages
        refine add_right_cancel (b := pt2.pages) ?_
        rw [pages]
        abel
    · next zero =>
      rw [show sz = 0 by omega, npg_zero, userPages_zero, ite_self] at isH
      rw [← isH, show sz = 0 by omega, npg_zero, clearRange_zero]
      exact .ok ⟨.refl k, samePages, rfl⟩
  refine (unmap.errors ?_).bind ?_
  · rintro e (⟨same, unfit⟩ | left)
    · obtain ⟨x, mem, unfit⟩ := unfit
      exact .inl ⟨same, x, mem_add.mpr (.inr mem), unfit⟩
    · exact .inr left
  intro ⟨pt3, k3⟩ ⟨freed, pages3, leaf3⟩
  refine (freewalk_ends pt3 k3).mono ?_ ?_
  · rintro e (⟨same, v, pte, left⟩ | ⟨same, unfit⟩)
    · rw [leaf3, leaf2, leaf1] at left
      obtain ⟨high, left⟩ := clearRange_eq_some.mp left
      obtain ⟨notTrapframe, left⟩ := clearRange_eq_some.mp left
      obtain ⟨notTrampoline, mapped⟩ := clearRange_eq_some.mp left
      exact .inr ⟨same, v, pte, by omega, by omega, by omega, mapped⟩
    · obtain ⟨x, mem, unfit⟩ := Unfit.before unfit freed.within
      rw [pages3] at mem
      exact .inl ⟨same, x, mem_add.mpr (.inl mem), unfit⟩
  · intro k4 walked
    rw [pages3] at walked
    rw [add_comm]
    exact freed.trans walked

theorem procFreepagetable_ends (pt : PageTable) (k : Kmem) (fits : npg sz ≤ trapframeVpn) :
    Ends (fun e => e = .kfree ∧ Unfit k (pt.pages + userPages pt.lookup (npg sz)) ∨
        e = .freewalkLeaf ∧ Leftover pt.lookup (npg sz))
      (k.Freed (pt.pages + userPages pt.lookup (npg sz))) (procFreepagetable pt k sz) :=
  takedown_ends pt k fits true

theorem Table.empty_lookup (page v : Nat) : PageTable.lookup (Table.empty page) v = none := by
  simp [PageTable.lookup, PageTable.low, Table.empty]

theorem uvmfree_empty_ends (pages : (k'.free : Multiset Nat) + pt.pages = k.free)
    (within : k.Within k.free k') (empty : ∀ v, pt.lookup v = none) :
    Ends (fun e => e = .kfree ∧ Unfit k k.free)
      (fun k'' : Kmem => (k''.free : Multiset Nat) = k.free ∧ k.Within k.free k'')
      (uvmfree pt k' 0) := by
  have sub : pt.pages ⊆ k.free := by
    rw [← pages]
    exact Multiset.subset_of_le (Multiset.le_add_left _ _)
  refine .bind_ok rfl ((freewalk_ends pt k').mono ?_ ?_)
  · rintro e (⟨_, v, pte, mapped⟩ | ⟨same, x, mem, unfit⟩)
    · rw [empty] at mapped
      cases mapped
    · exact ⟨same, Unfit.before ⟨x, sub mem, unfit⟩ within⟩
  · intro k'' freed
    exact ⟨by rw [freed.free, ← pages, add_comm], within.trans (freed.within.mono sub)⟩

/-- The entries of a new page table. -/
def newLeaf (trampoline trapframe : Nat) : Nat → Option Pte :=
  update (update (fun _ => none) trampolineVpn
    (some ⟨trampoline, { r := true, x := true }⟩)) trapframeVpn
    (some ⟨trapframe, { r := true, w := true }⟩)

/-- `proc_pagetable` takes the pages of the new table from the free list, and gives them
back if it fails. The table has the entries of the trampoline and of the trapframe. -/
theorem procPagetable_ends (trampoline trapframe : Nat) (k : Kmem) :
    Ends (fun e => e = .kfree ∧ Unfit k k.free)
      (fun (result : Option PageTable × Kmem) =>
        (result.2.free : Multiset Nat) + result.1.elim 0 PageTable.pages = k.free ∧
        k.Within k.free result.2 ∧
        ∀ pt, result.1 = some pt → pt.lookup = newLeaf trampoline trapframe)
      (procPagetable trampoline trapframe k) := by
  unfold procPagetable
  split
  · exact .ok ⟨add_zero _, .refl k _, fun pt none => by cases none⟩
  rename_i page k1 alloc
  have free := Kmem.kalloc_free alloc
  refine ((mappages_ends (Table.empty page) (k1.memset page 0) trampolineVpn _ _).errors
    fun e blocked => (not_blocked (by decide) (Table.empty_lookup page _) blocked).elim).bind ?_
  rintro ⟨pt, k2, ok⟩ ⟨walked, _, first⟩
  have pages : (k2.free : Multiset Nat) + pt.pages = k.free := by
    rw [walked.pages, Kmem.memset_free, PageTable.pages, Table.pages_empty, free,
      ← cons_coe, ← singleton_add, add_comm]
  have within : k.Within k.free k2 := by
    refine (((Kmem.kalloc_within alloc).trans (k1.memset_within page 0)).mono fun x mem => ?_).trans
      (walked.within.mono fun x mem => ?_)
    · rw [mem_singleton.mp mem, free]
      exact List.mem_cons_self
    · rw [free]
      exact List.mem_cons_of_mem _ mem
  cases ok with
  | false =>
    refine (uvmfree_empty_ends pages within fun v => ?_).bind ?_
    · rw [show pt.lookup = _ from first, Table.empty_lookup]
    · rintro k3 ⟨freed, within'⟩
      exact .ok ⟨(add_zero _).trans freed, within', fun pt none => by cases none⟩
  | true =>
    obtain ⟨_, leaf⟩ := first
    have leaf : pt.lookup = update (fun _ => none) trampolineVpn _ :=
      leaf.trans (by rw [show PageTable.lookup (Table.empty page) = fun _ => none from
        funext (Table.empty_lookup page)])
    refine ((mappages_ends pt k2 trapframeVpn _ _).errors fun e blocked =>
      (not_blocked (by decide) ?_ blocked).elim).bind ?_
    · rw [leaf, update_of_ne (by decide)]
    rintro ⟨pt', k3, ok⟩ ⟨walked', _, second⟩
    have pages' := walked'.pages.trans pages
    have within' : k.Within k.free k3 := by
      refine within.trans (walked'.within.mono fun x mem => ?_)
      rw [← pages]
      exact mem_add.mpr (.inl mem)
    cases ok with
    | false =>
      obtain ⟨pt'', run, samePages, cleared⟩ := uvmunmap_ok pt' k3 trampolineVpn 1
        (by decide)
      refine .bind_ok run ((uvmfree_empty_ends (by rw [samePages, pages']) within'
        fun v => ?_).bind ?_)
      · rw [cleared, show pt'.lookup = _ from second, leaf, ← clearRange_succ,
          update_idem, clearRange_zero]
        by_cases same : v = trampolineVpn
        · rw [same, update_self]
        · rw [update_of_ne same]
      · rintro k5 ⟨freed, within''⟩
        exact .ok ⟨(add_zero _).trans freed, within'', fun pt none => by cases none⟩
    | true =>
      refine .ok ⟨pages', within', fun made same => ?_⟩
      cases same
      rw [second.2, leaf, newLeaf]

end Rules

end Xv6.Vm
