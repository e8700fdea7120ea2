import Xv6.Lib.Ownership
import Xv6.Vm.Account

/-!
# The address space of a process

The user pages of a process are what its page table maps below its size; they are
its `heap`. `Space` says what holds of one address space in the rest of the
system: its pages are its own (`Ownership.Owned`, with the virtual page as the
key), and every leaf entry is a heap page, an attached segment's page, or one of
the two pages of the trampoline.

The pool has all pages that one owner has for itself: the free ones, those of the
page table, and `X`, those of the rest of the kernel. `foreign` are the heap pages of
the other processes; `apart` are those of them that this process must not map too,
all of them where no process has threads.

Of what the functions of `Xv6.Vm.Uvm` do, only three things matter here: that no page comes or
goes, that every foreign page stays mapped, and where the leaf entries are afterwards.
-/

namespace Xv6.Vm

open Outcome Ownership
open Function

/-- The physical pages mapped below virtual page `top`. -/
def heap (leaf : Nat → Option Pte) (top v : Nat) : Option Nat :=
  if v < top then (leaf v).map Pte.ppn else none

/-- Where leaf entries are: below `top`, in an attached range and then of a segment, or
at the two pages that user code cannot reach. -/
structure Shape (leaf : Nat → Option Pte) (top : Nat) (attached segment : Nat → Prop) : Prop where
  top_le : top ≤ trapframeVpn
  trapframe : (leaf trapframeVpn).isSome
  leaf_cases : ∀ {v pte}, leaf v = some pte → v < top ∨ (attached v ∧ segment pte.ppn) ∨
    ((v = trapframeVpn ∨ v = trampolineVpn) ∧ pte.perm.u = false)

structure Space (pool : Multiset Nat) (leaf : Nat → Option Pte) (top : Nat)
    (attached segment foreign apart : Nat → Prop) : Prop where
  owned : Owned pool (heap leaf top) foreign apart
  shape : Shape leaf top attached segment

/-- The pages with one owner: free, of the page table, and of the rest of the kernel. -/
def pool (k : Kmem) (pt : PageTable) (X : Multiset Nat) : Multiset Nat :=
  k.free + pt.pages + X

section Basics

variable {k k' : Kmem} {pt pt' : PageTable} {X : Multiset Nat} {leaf leaf' : Nat → Option Pte}
  {top top' v x : Nat} {attached segment attached' segment' foreign apart : Nat → Prop}

theorem pool_eq (same : (k'.free : Multiset Nat) + pt'.pages = k.free + pt.pages) :
    pool k' pt' X = pool k pt X := by
  unfold pool
  rw [same]

theorem heap_eq_some : heap leaf top v = some x ↔ v < top ∧ ∃ pte, leaf v = some pte ∧
    pte.ppn = x := by
  unfold heap
  split
  · next inside => simp [inside]
  · next out => simp [out]

theorem heap_zero (leaf : Nat → Option Pte) (v : Nat) : heap leaf 0 v = none := by
  unfold heap
  rw [if_neg (Nat.not_lt_zero v)]

theorem heap_congr (same : ∀ v < top, leaf' v = leaf v) : heap leaf' top = heap leaf top := by
  funext v
  unfold heap
  split
  · next low => rw [same v low]
  · rfl

theorem mem_userPages_iff : x ∈ userPages leaf top ↔ ∃ v, heap leaf top v = some x := by
  rw [mem_userPages]
  refine exists_congr fun v => ?_
  rw [heap_eq_some]

theorem userPages_nodup : (userPages leaf top).Nodup ↔
    ∀ v w x, heap leaf top v = some x → heap leaf top w = some x → v = w := by
  induction top with
  | zero =>
    refine ⟨fun _ v w x held => ?_, fun _ => Multiset.nodup_zero⟩
    cases held
  | succ top rest =>
    have below {v x : Nat} (held : heap leaf top v = some x) : heap leaf (top + 1) v = some x :=
      heap_eq_some.mpr ((heap_eq_some.mp held).imp_left Nat.lt_succ_of_lt)
    have split {v x : Nat} (held : heap leaf (top + 1) v = some x) :
        heap leaf top v = some x ∨ v = top ∧ (leaf top).map Pte.ppn = some x := by
      obtain ⟨low, pte, mapped, same⟩ := heap_eq_some.mp held
      by_cases here : v = top
      · rw [here] at mapped
        exact .inr ⟨here, by rw [mapped, ← same]; rfl⟩
      · exact .inl (heap_eq_some.mpr ⟨by omega, pte, mapped, same⟩)
    rw [userPages_succ]
    cases last : leaf top with
    | none =>
      rw [Option.elim_none, add_zero, rest]
      refine ⟨fun inj v w x held held' => ?_, fun inj v w x held held' =>
        inj v w x (below held) (below held')⟩
      rcases split held with held | ⟨_, mapped⟩
      · rcases split held' with held' | ⟨_, mapped⟩
        · exact inj v w x held held'
        · rw [last] at mapped
          cases mapped
      · rw [last] at mapped
        cases mapped
    | some pte =>
      have atTop : heap leaf (top + 1) top = some pte.ppn :=
        heap_eq_some.mpr ⟨Nat.lt_succ_self top, pte, last, rfl⟩
      rw [Option.elim_some, add_comm, Multiset.singleton_add, Multiset.nodup_cons, rest,
        mem_userPages_iff]
      refine ⟨fun ⟨new, inj⟩ v w x held held' => ?_, fun inj => ⟨fun ⟨v, held⟩ => ?_,
        fun v w x held held' => inj v w x (below held) (below held')⟩⟩
      · rw [last] at split
        rcases split held with held | ⟨here, mapped⟩
        · rcases split held' with held' | ⟨_, mapped⟩
          · exact inj v w x held held'
          · cases mapped
            exact absurd ⟨v, held⟩ new
        · rcases split held' with held' | ⟨here', _⟩
          · cases mapped
            exact absurd ⟨w, held'⟩ new
          · rw [here, here']
      · have same := inj v top _ (below held) atTop
        exact absurd (heap_eq_some.mp held).1 (by omega)

/-- Who owns what, in terms of the multiset of all pages at hand. -/
theorem owned_iff : Owned (pool k pt X) (heap pt.lookup top) foreign apart ↔
    (stock k pt top + X).Nodup ∧ (∀ x, foreign x → x ∉ pool k pt X) ∧
      ∀ x ∈ userPages pt.lookup top, ¬ apart x := by
  have all : stock k pt top + X = pool k pt X + userPages pt.lookup top := by
    unfold stock pool
    abel
  rw [all, Multiset.nodup_add, userPages_nodup, Multiset.disjoint_right]
  constructor
  · intro owned
    refine ⟨⟨owned.nodup, fun v w x held held' => owned.inj held held', fun mem => ?_⟩,
      fun x away => owned.foreign_outside away, fun x mem => ?_⟩
    · obtain ⟨v, held⟩ := mem_userPages_iff.mp mem
      exact owned.outside held
    · obtain ⟨v, held⟩ := mem_userPages_iff.mp mem
      exact owned.own_apart held
  · intro ⟨⟨nodup, inj, outside⟩, away, own⟩
    exact ⟨nodup, fun held => outside (mem_userPages_iff.mpr ⟨_, held⟩),
      fun held held' => inj _ _ _ held held', fun isForeign => away _ isForeign,
      fun held => own _ (mem_userPages_iff.mpr ⟨_, held⟩)⟩

/-- **Pages have been moved**: who owns what stays right, if every foreign page that was mapped
still is. -/
theorem owned_moved (owned : Owned (pool k pt X) (heap pt.lookup top) foreign apart)
    (sub : ∀ x, apart x → foreign x) (pages : stock k' pt' top' = stock k pt top)
    (keeps : ∀ x ∈ userPages pt.lookup top, foreign x → ¬ apart x → x ∈ userPages pt'.lookup top') :
    Owned (pool k' pt' X) (heap pt'.lookup top') foreign apart := by
  have all (k : Kmem) (pt : PageTable) (top : Nat) :
      stock k pt top + X = pool k pt X + userPages pt.lookup top := by
    unfold stock pool
    abel
  rw [owned_iff] at owned ⊢
  obtain ⟨nodup, outside, own⟩ := owned
  have was {x : Nat} (isForeign : foreign x)
      (mem : x ∈ pool k' pt' X + userPages pt'.lookup top') : x ∈ userPages pt.lookup top := by
    rw [← all, pages, all] at mem
    exact (Multiset.mem_add.mp mem).resolve_left (outside x isForeign)
  rw [← pages] at nodup
  refine ⟨nodup, fun x isForeign mem => ?_, fun x mem isApart => ?_⟩
  · rw [all, Multiset.nodup_add, Multiset.disjoint_left] at nodup
    have mapped := was isForeign (Multiset.mem_add.mpr (.inl mem))
    exact nodup.2.2 mem (keeps x mapped isForeign (own x mapped))
  · exact own x (was (sub x isApart) (Multiset.mem_add.mpr (.inr mem))) isApart

/-! ## How the shape changes -/

section

variable (shape : Shape leaf top attached segment)

include shape

theorem Shape.below (small : top' ≤ trapframeVpn)
    (le : top ≤ top') (same : ∀ v, top' ≤ v → leaf' v = leaf v) :
    Shape leaf' top' attached segment := by
  refine ⟨small, by rw [same _ small]; exact shape.trapframe, fun {v pte} mapped => ?_⟩
  by_cases low : v < top'
  · exact .inl low
  · rw [same v (by omega)] at mapped
    rcases shape.leaf_cases mapped with inside | other
    · exact absurd (Nat.lt_of_lt_of_le inside le) low
    · exact .inr other

theorem Shape.fill
    (laid : Laid k k' want leaf top top' leaf') (le : top ≤ top') :
    Shape leaf' top' attached segment := by
  refine shape.below ?_ le fun v high => laid.outside v (by omega)
  -- the trapframe is mapped
  by_contra high
  have absent := laid.unmapped trapframeVpn shape.top_le (by omega)
  have present := shape.trapframe
  rw [absent] at present
  cases present

theorem Shape.lower (le : low ≤ top) :
    Shape (clearRange leaf low (top - low)) low attached segment := by
  have top_le := shape.top_le
  refine ⟨by omega, ?_, fun {v pte} mapped => ?_⟩
  · unfold clearRange
    rw [if_neg (by omega)]
    exact shape.trapframe
  obtain ⟨out, mapped⟩ := clearRange_eq_some.mp mapped
  rcases shape.leaf_cases mapped with inHeap | other
  · exact .inl (by omega)
  · exact .inr other

theorem Shape.clear
    (keeps : ¬ (low ≤ trapframeVpn ∧ trapframeVpn < low + n)) :
    Shape (clearRange leaf low n) top attached segment := by
  refine ⟨shape.top_le, ?_, fun mapped => shape.leaf_cases (clearRange_eq_some.mp mapped).2⟩
  unfold clearRange
  rw [if_neg keeps]
  exact shape.trapframe

theorem Shape.attached_mono
    (sub : ∀ v, attached v → attached' v) (sub' : ∀ x, segment x → segment' x) :
    Shape leaf top attached' segment' where
  top_le := shape.top_le
  trapframe := shape.trapframe
  leaf_cases mapped := by
    rcases shape.leaf_cases mapped with low | ⟨inside, shared⟩ | trap
    · exact .inl low
    · exact .inr (.inl ⟨sub _ inside, sub' _ shared⟩)
    · exact .inr (.inr trap)

theorem Shape.leftover (left : Leftover leaf top) :
    ∃ v, attached v := by
  obtain ⟨v, pte, high, notTrapframe, notTrampoline, mapped⟩ := left
  rcases shape.leaf_cases mapped with low | ⟨inside, _⟩ | ⟨trap | trap, _⟩
  · omega
  · exact ⟨v, inside⟩
  · exact absurd trap notTrapframe
  · exact absurd trap notTrampoline

end

theorem Shape.new (trampoline trapframe : Nat) :
    Shape (newLeaf trampoline trapframe) 0 attached segment := by
  refine ⟨Nat.zero_le _, by rw [newLeaf, update_self]; rfl, fun {v pte} mapped => ?_⟩
  unfold newLeaf at mapped
  by_cases atTrapframe : v = trapframeVpn
  · rw [atTrapframe, update_self] at mapped
    cases mapped
    exact .inr (.inr ⟨.inl atTrapframe, rfl⟩)
  rw [update_of_ne atTrapframe] at mapped
  by_cases atTrampoline : v = trampolineVpn
  · rw [atTrampoline, update_self] at mapped
    cases mapped
    exact .inr (.inr ⟨.inr atTrampoline, rfl⟩)
  · rw [update_of_ne atTrampoline] at mapped
    cases mapped

theorem newLeaf_low (low : v < trapframeVpn) : newLeaf trampoline trapframe v = none := by
  unfold newLeaf
  unfold trampolineVpn
  unfold trapframeVpn at low ⊢
  rw [update_of_ne (by omega), update_of_ne (by omega)]

theorem Shape.unmapped (shape : Shape leaf top (fun _ => False) segment) (high : top ≤ v)
    (low : v < trapframeVpn) : leaf v = none := by
  cases mapped : leaf v with
  | none => rfl
  | some pte =>
    have trap : trampolineVpn = trapframeVpn + 1 := rfl
    obtain ⟨_, none⟩ := shape.leftover ⟨v, pte, high, by omega, by omega, mapped⟩
    exact none.elim

end Basics

end Xv6.Vm
