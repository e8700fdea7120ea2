import Xv6.Umalloc.Basic

/-!
# The free list and the blocks

`Layout base free taken chunks`: the free blocks stand in the order of addresses with a gap after
every block, `base` first, and together with the `taken` ones they cut up the memory of the chunks.
`Inv` says that a memory holds such a layout: the free list runs through the free blocks and back to
`base`, and the headers have the sizes. What `free` and `malloc` do to the memory after their
searches keeps it. `free` works in two halves, and between them the block it inserts is linked to
the list but the list not to the block: that state is `Inserting`.
-/

namespace Umalloc

open Tiling
open List (append_assoc cons_append forall_mem_cons map_append map_cons mem_append mem_append_left
  mem_cons mem_cons_self mem_map pairwise_cons perm_middle)

/-! ## Assignments -/

namespace Memory

variable {mem mem' : Memory} {a b n p v : Nat} {header : Header}

theorem header_set : (mem.set a header).header b = if b = a then header else mem.header b :=
  Function.update_apply ..

@[simp] theorem next_setPtr : (mem.setPtr a p).next b = if b = a then p else mem.next b := by
  unfold next setPtr
  rw [header_set]
  split
  · rfl
  · rfl

@[simp] theorem size_setPtr : (mem.setPtr a p).size b = mem.size b := by
  unfold size setPtr
  rw [header_set]
  split
  · next same => rw [same]
  · rfl

@[simp] theorem next_setSize : (mem.setSize a n).next b = mem.next b := by
  unfold next setSize
  rw [header_set]
  split
  · next same => rw [same]
  · rfl

@[simp] theorem size_setSize :
    (mem.setSize a n).size b = if b = a then n % 2 ^ 32 else mem.size b := by
  unfold size setSize
  rw [header_set]
  split
  · rfl
  · rfl

/-- The blocks at some addresses: address and size. -/
def blocks (mem : Memory) (nodes : List Nat) : List (Nat × Nat) :=
  nodes.map fun a => (a, mem.size a)

/-- The headers hold the sizes of the blocks. -/
def Records (mem : Memory) (bs : List (Nat × Nat)) : Prop :=
  ∀ b ∈ bs, mem.size b.1 = b.2

variable {B B' : List (Nat × Nat)}

theorem Records.blocks_eq (records : mem.Records B) : mem.blocks (B.map Prod.fst) = B := by
  unfold blocks
  rw [List.map_map]
  refine (List.map_congr_left fun block there => ?_).trans (List.map_id B)
  exact Prod.ext rfl (records block there)

theorem Records.update (records : mem.Records B) (other : ∀ b ∈ B, b.1 ≠ a)
    (size : ∀ b, mem'.size b = if b = a then v else mem.size b) : mem'.Records ((a, v) :: B) := by
  intro b there
  rw [size]
  rcases mem_cons.mp there with rfl | there
  · exact if_pos rfl
  · rw [if_neg (other b there)]
    exact records b there

theorem Records.subset (records : mem.Records B) (sub : B' ⊆ B) : mem.Records B' :=
  fun b there => records b (sub there)

end Memory

/-! ## Layouts -/

/-- The block `a` ends below `b`, with a gap. -/
def Before (a b : Nat × Nat) : Prop :=
  a.1 + 16 * a.2 < b.1

/-- The free blocks in their order, the taken blocks and the memory they cut up. -/
structure Layout (base : Nat) (free taken chunks : List (Nat × Nat)) : Prop where
  head : free.head? = some (base, 0)
  ordered : free.Pairwise Before
  filled : ∀ b ∈ free, b.1 ≠ base → 0 < b.2
  held : ∀ b ∈ taken, 0 < b.2
  above : ∀ x ∈ chunks.flatMap (cells 16), base < x
  tiled : Tiled 16 (free ++ taken) chunks

section Layout

variable {base v : Nat} {a b n p q : Nat × Nat} {free l r taken taken' chunks : List (Nat × Nat)}

theorem ordered_append : (l ++ q :: r).Pairwise Before ↔
    l.Pairwise Before ∧ r.Pairwise Before ∧ (∀ a ∈ l, Before a q) ∧ (∀ b ∈ r, Before q b) ∧
      ∀ a ∈ l, ∀ b ∈ r, Before a b := by
  rw [List.pairwise_append, pairwise_cons]
  constructor
  · rintro ⟨front, ⟨next, back⟩, cross⟩
    exact ⟨front, back, fun a mem => cross a mem q (mem_cons_self ..), next,
      fun a mem b mem' => cross a mem b (List.mem_cons_of_mem _ mem')⟩
  · rintro ⟨front, back, low, high, cross⟩
    refine ⟨front, ⟨high, back⟩, fun a mem b mem' => ?_⟩
    rcases mem_cons.mp mem' with rfl | mem'
    · exact low a mem
    · exact cross a mem b mem'

namespace Layout

section

variable (layout : Layout base free taken chunks)

include layout

theorem base_lt (held : b ∈ taken) : base < b.1 :=
  layout.above b.1 (layout.tiled.first_mem (List.mem_append_right _ held) (layout.held b held))

theorem base_le (node : b ∈ free) : base ≤ b.1 := by
  by_cases root : b.1 = base
  · exact Nat.le_of_eq root.symm
  · exact Nat.le_of_lt (layout.above b.1 (layout.tiled.first_mem (mem_append_left _ node)
      (layout.filled b node root)))

theorem root (node : b ∈ free) (root : b.1 = base) :
    b.2 = 0 := by
  have head := layout.head
  have ordered := layout.ordered
  cases free with
  | nil => cases head
  | cons c free =>
    obtain rfl : c = (base, 0) := Option.some.inj head
    rcases mem_cons.mp node with rfl | node
    · rfl
    · have after : Before (base, 0) b := (pairwise_cons.mp ordered).1 b node
      unfold Before at after
      omega

theorem clear (node : a ∈ free) (held : b ∈ taken) :
    a.1 < b.1 ∧ a.1 + 16 * a.2 ≤ b.1 ∨ b.1 + 16 * b.2 ≤ a.1 := by
  have pos := layout.held b held
  by_cases root : a.1 = base
  · have above := layout.base_lt held
    have empty := layout.root node root
    omega
  · have filled := layout.filled a node root
    have separate : Separate 16 a b :=
      (List.pairwise_append.mp (layout.tiled.pairwise (by omega))).2.2 _ node _ held filled pos
    unfold Separate at separate
    omega

theorem taken_pairwise : taken.Pairwise (Separate 16) := by
  have apart := (List.pairwise_append.mp (layout.tiled.pairwise (by omega))).2.1
  refine apart.imp_of_mem fun held held' separate => ?_
  exact separate (layout.held _ held) (layout.held _ held')

theorem nodup : ((free ++ taken).map Prod.fst).Nodup := by
  rw [List.Nodup, List.pairwise_map, List.pairwise_append]
  refine ⟨layout.ordered.imp fun before => ?_,
    layout.taken_pairwise.imp_of_mem fun held held' separate => ?_, fun a node b held => ?_⟩
  · unfold Before at before
    omega
  · have pos := layout.held _ held
    have pos' := layout.held _ held'
    unfold Separate at separate
    omega
  · have pos := layout.held b held
    have clear := layout.clear node held
    omega

end

theorem other_taken (layout : Layout base free (p :: taken) chunks) :
    ∀ b ∈ free ++ taken, b.1 ≠ p.1 := by
  intro b there same
  have nodup := (perm_middle.map Prod.fst).nodup_iff.mp layout.nodup
  exact (List.nodup_cons.mp nodup).1 (same ▸ List.mem_map_of_mem there)

theorem other_free (layout : Layout base (l ++ q :: r) taken chunks) :
    ∀ b ∈ l ++ r ++ taken, b.1 ≠ q.1 := by
  intro b there same
  have middle : (l ++ q :: r ++ taken).Perm (q :: (l ++ r ++ taken)) :=
    perm_middle.append_right taken
  have nodup := (middle.map Prod.fst).nodup_iff.mp layout.nodup
  exact (List.nodup_cons.mp nodup).1 (same ▸ List.mem_map_of_mem there)

theorem drop (layout : Layout base (l ++ q :: n :: r) taken chunks) (held : ∀ b ∈ taken', 0 < b.2)
    (tiled : Tiled 16 (l ++ q :: r ++ taken') chunks) :
      Layout base (l ++ q :: r) taken' chunks := by
  have kept : (l ++ q :: r).Sublist (l ++ q :: n :: r) :=
    (List.Sublist.refl l).append ((List.sublist_cons_self n r).cons_cons q)
  refine ⟨?_, layout.ordered.sublist kept, fun b node => layout.filled b (kept.subset node), held,
    layout.above, tiled⟩
  have head := layout.head
  rw [List.head?_append, List.head?_cons] at head ⊢
  exact head

theorem resize (layout : Layout base (l ++ q :: r) taken chunks) (node : q.1 ≠ base) (pos : 0 < v)
    (gap : ∀ y ∈ r, q.1 + 16 * v < y.1) (held : ∀ b ∈ taken', 0 < b.2)
    (tiled : Tiled 16 (l ++ (q.1, v) :: r ++ taken') chunks) :
    Layout base (l ++ (q.1, v) :: r) taken' chunks := by
  obtain ⟨front, back, low, high, cross⟩ := ordered_append.mp layout.ordered
  refine ⟨?_, ordered_append.mpr ⟨front, back, low, gap, cross⟩, fun b there ne => ?_, held,
    layout.above, tiled⟩
  · have head := layout.head
    cases l with
    | nil => exact absurd (congrArg Prod.fst (Option.some.inj head)) node
    | cons c l => exact head
  · rcases mem_append.mp there with there | there
    · exact layout.filled b (mem_append_left _ there) ne
    · rcases mem_cons.mp there with rfl | there
      · exact pos
      · exact layout.filled b (List.mem_append_right _ (List.mem_cons_of_mem _ there)) ne

theorem add (layout : Layout base (l ++ q :: r) (p :: taken) chunks) (low : Before q p)
    (gap : ∀ y ∈ r, Before p y) : Layout base (l ++ q :: p :: r) taken chunks := by
  obtain ⟨front, back, below, high, cross⟩ := ordered_append.mp layout.ordered
  have blocks : (l ++ q :: p :: r ++ taken).Perm (l ++ q :: r ++ p :: taken) := by
    rw [append_assoc, append_assoc]
    refine List.Perm.append_left l (.cons q ?_)
    exact perm_middle.symm
  refine ⟨?_, ordered_append.mpr ⟨front, pairwise_cons.mpr ⟨gap, back⟩, below, ?_, ?_⟩, ?_,
    (forall_mem_cons.mp layout.held).2, layout.above, layout.tiled.of_perm blocks⟩
  · have head := layout.head
    rw [List.head?_append, List.head?_cons] at head ⊢
    exact head
  · intro y there
    rcases mem_cons.mp there with rfl | there
    · exact low
    · exact high y there
  · intro a before y there
    rcases mem_cons.mp there with rfl | there
    · have := below a before
      unfold Before at this low ⊢
      omega
    · exact cross a before y there
  · intro b there ne
    rcases mem_append.mp there with there | there
    · exact layout.filled b (mem_append_left _ there) ne
    · rcases mem_cons.mp there with rfl | there
      · exact layout.filled b (by simp) ne
      · rcases mem_cons.mp there with rfl | there
        · exact layout.held b (mem_cons_self ..)
        · exact layout.filled b (by simp [there]) ne

end Layout

end Layout

/-! ## The invariant -/

/-- The memory holds the layout. -/
structure Inv (base : Nat) (mem : Memory) (free taken chunks : List (Nat × Nat)) : Prop where
  layout : Layout base free taken chunks
  ring : Linked mem.next (free.map Prod.fst ++ [base])
  sizes : mem.Records (free ++ taken)

/-- The block at `bp`, of `u` units, is to follow the block `q`, and already points to what will
follow it. -/
structure Inserting (base : Nat) (mem : Memory) (l : List (Nat × Nat)) (q : Nat × Nat) (bp u : Nat)
    (r taken chunks : List (Nat × Nat)) : Prop where
  layout : Layout base (l ++ q :: r) ((bp, u) :: taken) chunks
  front : Linked mem.next (l.map Prod.fst ++ [q.1])
  back : Linked mem.next (bp :: r.map Prod.fst ++ [base])
  sizes : mem.Records (l ++ q :: r ++ (bp, u) :: taken)
  after : q.1 < bp
  gap : ∀ y ∈ r, Before (bp, u) y

section Insert

variable {base bp u : Nat} {mem mem' : Memory} {p q : Nat × Nat}
  {free l r taken taken' chunks : List (Nat × Nat)}

theorem Inv.agree (inv : Inv base mem free taken chunks)
    (same : ∀ b ∈ free ++ taken, mem'.header b.1 = mem.header b.1) :
    Inv base mem' free taken chunks := by
  refine ⟨inv.layout, inv.ring.congr fun a node => ?_, fun b there => ?_⟩
  · obtain ⟨b, there, rfl⟩ := mem_map.mp node
    exact congrArg Header.ptr (same b (mem_append_left _ there))
  · exact (congrArg Header.size (same b there)).trans (inv.sizes b there)

theorem Inv.perm (inv : Inv base mem free taken chunks) (same : taken'.Perm taken) :
    Inv base mem free taken' chunks :=
  ⟨{ inv.layout with
      held := fun b there => inv.layout.held b (same.mem_iff.mp there)
      tiled := inv.layout.tiled.of_perm (same.append_left _) },
    inv.ring, inv.sizes.subset ((same.append_left free).subset)⟩

theorem Inv.head (inv : Inv base mem free taken chunks) :
    (free.map Prod.fst).head? = some base := by
  rw [List.head?_map, inv.layout.head]
  rfl

theorem Inv.next_eq (inv : Inv base mem (l ++ q :: r) taken chunks) :
    mem.next q.1 = (r.map Prod.fst).headD base := by
  have ring := inv.ring
  rw [map_append, map_cons] at ring
  exact ring.next_of_split

theorem Inv.split (inv : Inv base mem (l ++ q :: r) taken chunks) :
    Linked mem.next (l.map Prod.fst ++ [q.1]) ∧
      Linked mem.next (q.1 :: r.map Prod.fst ++ [base]) := by
  have ring := inv.ring
  rw [map_append, map_cons, append_assoc, cons_append] at ring
  exact Linked.split.mp ring

theorem next_other (other : ∀ b ∈ free, b.1 ≠ a) (sub : l ⊆ free)
    (next : ∀ c, mem'.next c = if c = a then x else mem.next c) :
    ∀ c ∈ l.map Prod.fst, mem'.next c = mem.next c := by
  intro c node
  obtain ⟨b, there, rfl⟩ := mem_map.mp node
  rw [next, if_neg (other b (sub there))]

theorem middle_perm : (l ++ q :: n :: r ++ taken).Perm (n :: (l ++ q :: r ++ taken)) := by
  have middle : (l ++ [q] ++ n :: (r ++ taken)).Perm (n :: (l ++ [q] ++ (r ++ taken))) :=
    perm_middle
  simpa only [append_assoc, cons_append, List.nil_append] using middle

theorem Inv.mergeUpper (inv : Inv base mem (l ++ q :: n :: r) ((bp, u) :: taken) chunks)
    (after : q.1 < bp) (adjacent : bp + 16 * u = n.1) (small : total chunks < 2 ^ 32) :
    Inserting base (mem.joinUpper bp q.1) l q bp (u + n.2) r taken chunks := by
  have other := inv.layout.other_taken
  have ordered := (ordered_append.mp inv.layout.ordered).2.1
  obtain ⟨front, back⟩ := inv.split
  have tiled : Tiled 16 ((bp, u + n.2) :: (l ++ q :: r ++ taken)) chunks := by
    rw [← tiled_join, adjacent]
    exact inv.layout.tiled.of_perm (perm_middle.trans (.cons _ middle_perm)).symm
  have fits := tiled.size_le (mem_cons_self ..)
  have points : mem.next q.1 = n.1 := inv.next_eq
  have size : mem.size bp = u ∧ mem.size n.1 = n.2 :=
    ⟨inv.sizes (bp, u) (by simp), inv.sizes n (by simp)⟩
  have next' : ∀ a, (mem.joinUpper bp q.1).next a =
      if a = bp then mem.next n.1 else mem.next a := by
    intro a
    unfold Memory.joinUpper
    rw [size.1, points, if_pos adjacent]
    simp only [Memory.next_setPtr, Memory.next_setSize, points]
  have size' : ∀ a, (mem.joinUpper bp q.1).size a = if a = bp then u + n.2 else mem.size a := by
    intro a
    unfold Memory.joinUpper
    rw [size.1, points, if_pos adjacent, size.2]
    rw [Memory.size_setPtr, Memory.size_setSize, Nat.mod_eq_of_lt (by omega)]
  refine ⟨inv.layout.drop ?_ (tiled.of_perm perm_middle),
    front.congr (next_other other (by simp) next'),
    (Linked.cons_cons.mp back).2.reroute ?_
      (next_other other (fun b there => by simp [there]) next'), ?_, after, ?_⟩
  · obtain ⟨pos, held⟩ := forall_mem_cons.mp inv.layout.held
    exact forall_mem_cons.mpr ⟨Nat.add_pos_left pos _, held⟩
  · rw [next', if_pos rfl]
  · refine ((inv.sizes.subset ?_).update (B := l ++ q :: r ++ taken) ?_ size').subset
      perm_middle.subset
    · intro b there
      simp only [mem_append, mem_cons] at there ⊢
      tauto
    · intro b there
      refine other b ?_
      simp only [mem_append, mem_cons] at there ⊢
      tauto
  · intro y there
    have later := (pairwise_cons.mp ordered).1 y there
    unfold Before at later ⊢
    omega

theorem Inv.linkUpper (inv : Inv base mem (l ++ q :: r) ((bp, u) :: taken) chunks)
    (after : q.1 < bp) (before : ∀ y ∈ r, bp < y.1) (gap : bp + 16 * u ≠ mem.next q.1) :
    Inserting base (mem.joinUpper bp q.1) l q bp u r taken chunks := by
  have other := inv.layout.other_taken
  obtain ⟨front, back⟩ := inv.split
  have size : mem.size bp = u := inv.sizes (bp, u) (by simp)
  have linked : mem.joinUpper bp q.1 = mem.setPtr bp (mem.next q.1) := by
    unfold Memory.joinUpper
    rw [size, if_neg gap]
  rw [linked]
  have next' : ∀ a, (mem.setPtr bp (mem.next q.1)).next a = _ := fun _ => Memory.next_setPtr
  refine ⟨inv.layout, front.congr (next_other other (by simp) next'),
    back.reroute ?_ (next_other other (fun b there => by simp [there]) next'),
    fun b there => Memory.size_setPtr.trans (inv.sizes b there), after, ?_⟩
  · rw [next', if_pos rfl]
  · -- the next free block starts later, and the others after that one
    have points := inv.next_eq
    have ordered := (ordered_append.mp inv.layout.ordered).2.1
    cases r with
    | nil => exact fun y there => absurd there List.not_mem_nil
    | cons n r =>
      have first : Before (bp, u) n := by
        have low := before n (mem_cons_self ..)
        have apart := inv.layout.clear (a := n) (by simp) (mem_cons_self ..)
        rw [points, map_cons, List.headD_cons] at gap
        unfold Before
        omega
      intro y there
      rcases mem_cons.mp there with rfl | there
      · exact first
      · have later := (pairwise_cons.mp ordered).1 y there
        unfold Before at *
        omega

theorem Inv.joinUpper (inv : Inv base mem (l ++ q :: r) ((bp, u) :: taken) chunks)
    (after : q.1 < bp) (before : ∀ y ∈ r, bp < y.1) (small : total chunks < 2 ^ 32) :
    ∃ u' r', u ≤ u' ∧ Inserting base (mem.joinUpper bp q.1) l q bp u' r' taken chunks := by
  by_cases adjacent : bp + 16 * u = mem.next q.1
  · have points := inv.next_eq
    cases r with
    | nil =>
      have above := inv.layout.base_lt (mem_cons_self ..)
      rw [List.map_nil, List.headD_nil] at points
      omega
    | cons n r =>
      exact ⟨_, r, Nat.le_add_right .., inv.mergeUpper after (adjacent.trans points) small⟩
  · exact ⟨u, r, le_rfl, inv.linkUpper after before adjacent⟩

section

variable (ins : Inserting base mem l q bp u r taken chunks)

include ins

theorem Inserting.linkLower
    (gap : q.1 + 16 * q.2 ≠ bp) :
    Inv base (mem.setPtr q.1 bp) (l ++ q :: (bp, u) :: r) taken chunks := by
  have other := ins.layout.other_free
  have next' : ∀ a, (mem.setPtr q.1 bp).next a = _ := fun _ => Memory.next_setPtr
  have low : Before q (bp, u) := by
    have apart := ins.layout.clear (a := q) (by simp) (mem_cons_self ..)
    have after := ins.after
    unfold Before
    omega
  refine ⟨ins.layout.add low ins.gap, ?_, fun b there => ?_⟩
  · rw [map_append, map_cons, map_cons, append_assoc, cons_append,
      cons_append, Linked.split_cons]
    refine ⟨ins.front.congr (next_other other (by simp) next'), ?_, ?_⟩
    · rw [next', if_pos rfl]
    · refine ins.back.congr (l := bp :: r.map Prod.fst) fun a node => ?_
      rcases mem_cons.mp node with rfl | node
      · rw [next', if_neg (Nat.ne_of_gt ins.after)]
      · exact next_other other (by simp) next' a node
  · refine Memory.size_setPtr.trans (ins.sizes b ?_)
    simp only [mem_append, mem_cons] at there ⊢
    tauto

theorem Inserting.mergeLower
    (adjacent : q.1 + 16 * q.2 = bp) (small : total chunks < 2 ^ 32) :
    Inv base (mem.joinLower bp q.1) (l ++ (q.1, q.2 + u) :: r) taken chunks := by
  have other := ins.layout.other_free
  have after := ins.after
  have tiled : Tiled 16 ((q.1, q.2 + u) :: (l ++ r ++ taken)) chunks := by
    rw [← tiled_join, adjacent]
    refine ins.layout.tiled.of_perm (List.Perm.trans (.swap ..) ?_)
    exact ((perm_middle.append_right taken).cons _).symm.trans perm_middle.symm
  have fits := tiled.size_le (mem_cons_self ..)
  have size : mem.size q.1 = q.2 ∧ mem.size bp = u :=
    ⟨ins.sizes q (by simp), ins.sizes (bp, u) (by simp)⟩
  have next' : ∀ a, (mem.joinLower bp q.1).next a =
      if a = q.1 then mem.next bp else mem.next a := by
    intro a
    unfold Memory.joinLower
    rw [size.1, if_pos adjacent]
    simp only [Memory.next_setPtr, Memory.next_setSize]
  have size' : ∀ a, (mem.joinLower bp q.1).size a = if a = q.1 then q.2 + u else mem.size a := by
    intro a
    unfold Memory.joinLower
    rw [size.1, if_pos adjacent, size.2]
    rw [Memory.size_setPtr, Memory.size_setSize, Nat.mod_eq_of_lt (by omega)]
  have blocks : (l ++ (q.1, q.2 + u) :: r ++ taken).Perm ((q.1, q.2 + u) :: (l ++ r ++ taken)) :=
    perm_middle.append_right taken
  refine ⟨ins.layout.resize ?_ ?_ ?_ ?_ (tiled.of_perm blocks), ?_, ?_⟩
  · intro root
    have empty := ins.layout.root (b := q) (by simp) root
    omega
  · exact Nat.add_pos_right _ (ins.layout.held _ (mem_cons_self ..))
  · intro y there
    have gap := ins.gap y there
    unfold Before at gap
    omega
  · exact (forall_mem_cons.mp ins.layout.held).2
  · rw [map_append, map_cons, append_assoc, cons_append, Linked.split]
    refine ⟨ins.front.congr (next_other other (by simp) next'),
      ins.back.reroute ?_ (next_other other (by simp) next')⟩
    rw [next', if_pos rfl]
  · refine ((ins.sizes.subset ?_).update (B := l ++ r ++ taken)
      (fun b there => other b ?_) size').subset blocks.subset
    · intro b there
      simp only [mem_append, mem_cons] at there ⊢
      tauto
    · simp only [mem_append, mem_cons] at there ⊢
      tauto

theorem Inserting.joinLower
    (small : total chunks < 2 ^ 32) :
    ∃ free, Inv base (mem.joinLower bp q.1) free taken chunks ∧ q.1 ∈ free.map Prod.fst ∧
      ∃ b ∈ free, u ≤ b.2 := by
  have size : mem.size q.1 = q.2 := ins.sizes q (by simp)
  by_cases adjacent : q.1 + 16 * q.2 = bp
  · exact ⟨_, ins.mergeLower adjacent small, by simp, (q.1, q.2 + u), by simp, Nat.le_add_left ..⟩
  · have linked : mem.joinLower bp q.1 = mem.setPtr q.1 bp := by
      unfold Memory.joinLower
      rw [size, if_neg adjacent]
    rw [linked]
    exact ⟨_, ins.linkLower adjacent, by simp, (bp, u), by simp, le_rfl⟩

end

/-- **`free` after its search**: the block becomes free, at its place in the list. -/
theorem Inv.insert (inv : Inv base mem (l ++ q :: r) ((bp, u) :: taken) chunks)
    (after : q.1 < bp) (before : ∀ y ∈ r, bp < y.1) (small : total chunks < 2 ^ 32) :
    ∃ free, Inv base ((mem.joinUpper bp q.1).joinLower bp q.1) free taken chunks ∧
      q.1 ∈ free.map Prod.fst ∧ ∃ b ∈ free, u ≤ b.2 := by
  obtain ⟨u', r', le, ins⟩ := inv.joinUpper after before small
  obtain ⟨free, inv, node, b, there, large⟩ := ins.joinLower small
  exact ⟨free, inv, node, b, there, le.trans large⟩

end Insert

/-! ## Taking a block -/

section Take

variable {base n : Nat} {mem mem' : Memory} {p q : Nat × Nat} {l r taken chunks : List (Nat × Nat)}

theorem Inv.takeAll (inv : Inv base mem (l ++ q :: p :: r) taken chunks) (pos : 0 < p.2) :
    Inv base (mem.setPtr q.1 (mem.next p.1)) (l ++ q :: r) (p :: taken) chunks := by
  have other := inv.layout.other_free
  have next' : ∀ a, (mem.setPtr q.1 (mem.next p.1)).next a = _ := fun _ => Memory.next_setPtr
  obtain ⟨front, back⟩ := inv.split
  have blocks : (l ++ q :: r ++ p :: taken).Perm (l ++ q :: p :: r ++ taken) :=
    perm_middle.trans middle_perm.symm
  refine ⟨inv.layout.drop (forall_mem_cons.mpr ⟨pos, inv.layout.held⟩)
      (inv.layout.tiled.of_perm blocks), ?_,
    fun b there => Memory.size_setPtr.trans (inv.sizes b (blocks.subset there))⟩
  rw [map_append, map_cons, append_assoc, cons_append, Linked.split]
  refine ⟨front.congr (next_other other (by simp) next'),
    (Linked.cons_cons.mp back).2.reroute ?_
      (next_other other (fun b there => by simp [there]) next')⟩
  rw [next', if_pos rfl]

theorem Inv.takeTail (inv : Inv base mem (l ++ p :: r) taken chunks) (pos : 0 < n) (less : n < p.2)
    (next : ∀ a, mem'.next a = mem.next a)
    (size : ∀ a, mem'.size a =
      if a = p.1 + 16 * (p.2 - n) then n else if a = p.1 then p.2 - n else mem.size a) :
    Inv base mem' (l ++ (p.1, p.2 - n) :: r) ((p.1 + 16 * (p.2 - n), n) :: taken) chunks := by
  have tiled : Tiled 16 (l ++ (p.1, p.2 - n) :: r ++ (p.1 + 16 * (p.2 - n), n) :: taken)
      chunks := by
    have whole : Tiled 16 ((p.1, p.2 - n + n) :: (l ++ r ++ taken)) chunks := by
      rw [Nat.sub_add_cancel (Nat.le_of_lt less)]
      exact inv.layout.tiled.of_perm (perm_middle.append_right taken).symm
    refine (tiled_join.mpr whole).of_perm (perm_middle.trans (.trans (.cons _ ?_) (.swap ..)))
    exact perm_middle.append_right taken
  have layout : Layout base (l ++ (p.1, p.2 - n) :: r)
      ((p.1 + 16 * (p.2 - n), n) :: taken) chunks := by
    refine inv.layout.resize ?_ (by omega) ?_
      (forall_mem_cons.mpr ⟨pos, inv.layout.held⟩) tiled
    · intro root
      have empty := inv.layout.root (b := p) (by simp) root
      omega
    · intro y there
      have gap := (ordered_append.mp inv.layout.ordered).2.2.2.1 y there
      unfold Before at gap
      omega
  refine ⟨layout, ?_, ?_⟩
  · have ring := inv.ring
    rw [map_append, map_cons] at ring ⊢
    exact ring.congr fun a _ => next a
  · have others : mem'.Records (l ++ r ++ taken) := by
      intro b there
      have notTail := layout.other_taken b (by
        simp only [mem_append, mem_cons] at there ⊢
        tauto)
      have notHead := inv.layout.other_free b there
      rw [size, if_neg notTail, if_neg notHead]
      refine inv.sizes b ?_
      simp only [mem_append, mem_cons] at there ⊢
      tauto
    intro b there
    simp only [mem_append, mem_cons] at there
    obtain (before | rfl | after) | rfl | held := there
    · exact others b (by simp [before])
    · rw [size, if_neg (by dsimp only; omega), if_pos rfl]
    · exact others b (by simp [after])
    · rw [size, if_pos rfl]
    · exact others b (by simp [held])

/-- **`malloc` after its search**: `n` units of the free block at `p`, which follows `q`, are
taken. -/
theorem Inv.carve (inv : Inv base mem (l ++ q :: p :: r) taken chunks) (pos : 0 < n)
    (enough : n ≤ p.2) (small : total chunks < 2 ^ 32) :
    ∃ free, Inv base (mem.carve n q.1 p.1).1 free (((mem.carve n q.1 p.1).2, n) :: taken) chunks ∧
      q.1 ∈ free.map Prod.fst := by
  have size : mem.size p.1 = p.2 := inv.sizes p (by simp)
  unfold Memory.carve
  rw [size]
  by_cases whole : p.2 = n
  · rw [if_pos whole, ← whole]
    exact ⟨l ++ q :: r, inv.takeAll (by omega), by simp⟩
  rw [if_neg whole]
  have fits : p.2 ≤ total chunks := inv.layout.tiled.size_le (by simp)
  have nodes : l ++ q :: p :: r = l ++ [q] ++ p :: r := by simp
  have small_rest : (p.2 - n) % 2 ^ 32 = p.2 - n := Nat.mod_eq_of_lt (by omega)
  have small_n : n % 2 ^ 32 = n := Nat.mod_eq_of_lt (by omega)
  rw [nodes] at inv
  dsimp only
  rw [Memory.size_setSize, if_pos rfl, small_rest]
  refine ⟨_, inv.takeTail pos (by omega) ?_ ?_, by simp⟩
  · intro a
    rw [Memory.next_setSize, Memory.next_setSize]
  · intro a
    rw [Memory.size_setSize, Memory.size_setSize, small_n, small_rest]

end Take

/-! ## New memory -/

section Grow

variable {base p n a : Nat} {mem : Memory} {free taken chunks : List (Nat × Nat)} {b : Nat × Nat}

theorem Inv.grow (inv : Inv base mem free taken chunks)
    (past : ∀ x ∈ chunks.flatMap (cells 16), x + 16 ≤ p) (low : base < p) (pos : 0 < n)
    (small : n < 2 ^ 32) :
    Inv base (mem.setSize p n) free ((p, n) :: taken) (chunks ++ [(p, n)]) := by
  have layout : Layout base free ((p, n) :: taken) (chunks ++ [(p, n)]) := by
    refine { inv.layout with
      held := forall_mem_cons.mpr ⟨pos, inv.layout.held⟩
      above := ?_
      tiled := (inv.layout.tiled.grow past).of_perm perm_middle }
    intro x there
    rw [List.flatMap_append, List.flatMap_singleton] at there
    rcases mem_append.mp there with there | there
    · exact inv.layout.above x there
    · obtain ⟨i, -, rfl⟩ := mem_cells.mp there
      exact Nat.lt_add_right _ low
  refine ⟨layout, inv.ring.congr fun _ _ => Memory.next_setSize, ?_⟩
  refine (inv.sizes.update layout.other_taken fun c => ?_).subset perm_middle.subset
  rw [Memory.size_setSize, Nat.mod_eq_of_lt small]

theorem Inv.store (inv : Inv base mem free taken chunks) (header : Header) (held : b ∈ taken)
    (low : b.1 < a) (high : a < b.1 + 16 * b.2) :
      Inv base (mem.set a header) free taken chunks := by
  refine inv.agree fun c there => ?_
  rw [Memory.header_set, if_neg]
  rintro rfl
  rcases mem_append.mp there with node | held'
  · have apart := inv.layout.clear node held
    omega
  · have ne : b ≠ c := by
      rintro rfl
      omega
    have separate : Separate 16 b c := inv.layout.taken_pairwise.forall held held' ne
    unfold Separate at separate
    omega

end Grow

end Umalloc
