import Xv6.Umalloc.Calls

/-!
# Every run of the allocator

In every state that a program reaches, the free list is an ordered circular list without adjacent
blocks, the live and the free blocks cut up the memory from `sbrk`, and every further call ends, as
long as that memory is less than `2 ^ 32` units. Without the bound this fails: joining free blocks
wraps the size of a header around, and the units beyond are lost.
-/

namespace Umalloc

open Tiling

/-- The blocks the program holds: address and size of each. -/
def State.held (s : State) : List (Nat × Nat) :=
  s.live.map fun block => (block.1 - 16, nunits block.2)

/-- What the allocator promises, where `order` are the free blocks. -/
structure Sound (base : Nat) (s : State) (order : List Nat) : Prop where
  -- The list runs from `base` through the free blocks and back; it is set up by the first call.
  circular : s.freep ≠ 0 → Linked s.mem.next (base :: order ++ [base]) ∧ s.freep ∈ base :: order
  empty : s.freep = 0 → order = []
  -- It is strictly ordered by address, with a gap after every block.
  ordered : (base :: order).Pairwise fun a b => a < b ∧ a + 16 * s.mem.size a ≠ b
  -- The bytes asked for lie in the memory from `sbrk`, and in a block of their own.
  inside : ∀ block ∈ s.live, ∀ x, block.1 ≤ x → x < block.1 + block.2 →
    ∃ chunk ∈ s.chunks, chunk.1 ≤ x ∧ x < chunk.1 + 16 * chunk.2
  own : ∀ block ∈ s.live,
    16 ≤ block.1 ∧ block.1 + block.2 ≤ block.1 - 16 + 16 * nunits block.2
  separate : (s.mem.blocks order ++ s.held).Pairwise (Separate 16)
  -- Every unit from `sbrk` is in exactly one block.
  units : Tiled 16 (s.mem.blocks order ++ s.held) s.chunks

/-! ## The invariant of the runs -/

/-- The free list is not set up yet, or it and the blocks held are as they should be. -/
structure Healthy (base : Nat) (s : State) : Prop where
  pos : 0 < base
  low : base + 16 ≤ s.brk
  state : (s.freep = 0 ∧ s.chunks = [] ∧ s.live = []) ∨ ∃ free, Ready base s free s.held

section Steps

variable {base ap nbytes fuel : Nat} {s s' : State} {nodes : List (Nat × Nat)}

theorem nunits_pos : 0 < nunits nbytes :=
  Nat.succ_pos _

theorem bytes_le (nbytes : Nat) : 16 + nbytes ≤ 16 * nunits nbytes := by
  unfold nunits
  omega

theorem start_frame (base : Nat) (s : State) : (s.start base).chunks = s.chunks ∧
    (s.start base).brk = s.brk ∧ (s.start base).live = s.live := by
  unfold State.start
  split
  · exact ⟨rfl, rfl, rfl⟩
  · exact ⟨rfl, rfl, rfl⟩

theorem Healthy.start (healthy : Healthy base s) :
    ∃ nodes, Ready base (s.start base) nodes s.held := by
  unfold State.start
  rcases healthy.state with ⟨first, chunks, live⟩ | ⟨nodes, ready⟩
  · rw [if_pos first]
    have held : s.held = [] := by rw [State.held, live, List.map_nil]
    have size : ((s.mem.setPtr base base).setSize base 0).size base = 0 := by
      rw [Memory.size_setSize, if_pos rfl]
      rfl
    rw [held]
    refine ⟨[(base, 0)], ⟨⟨rfl, List.pairwise_singleton .., ?_, ?_, ?_, ?_⟩, ?_, ?_⟩,
      List.mem_singleton_self _, ?_, healthy.low⟩
    · intro b node ne
      rw [List.mem_singleton.mp node] at ne
      exact absurd rfl ne
    · intro b none
      cases none
    · rw [chunks]
      intro x none
      cases none
    · rw [chunks]
      exact ⟨List.Perm.refl _, .nil⟩
    · refine Linked.cons_cons.mpr ⟨?_, Linked.singleton⟩
      rw [Memory.next_setSize, Memory.next_setPtr, if_pos rfl]
    · exact List.forall_mem_singleton.mpr size
    · rw [chunks]
      intro x none
      cases none
  · have ne : s.freep ≠ 0 := by
      have := ready.base_le
      have := healthy.pos
      omega
    rw [if_neg ne]
    exact ⟨nodes, ready⟩

theorem Ready.header (ready : Ready base s nodes s.held) (live : block ∈ s.live) :
    block.1 - 16 + 16 = block.1 := by
  have above : base < block.1 - 16 :=
    ready.inv.layout.base_lt (b := (block.1 - 16, nunits block.2)) (List.mem_map_of_mem live)
  omega

theorem Healthy.ready (healthy : Healthy base s) (live : block ∈ s.live) :
    ∃ nodes, Ready base s nodes s.held := by
  rcases healthy.state with ⟨-, -, none⟩ | ready
  · rw [none] at live
    cases live
  · exact ready

theorem any_live (live : block ∈ s.live) : (s.live.any fun b => b.1 == block.1) = true :=
  List.any_eq_true.mpr ⟨block, live, beq_self_eq_true _⟩

theorem held_erase (live : (s.live.any fun b => b.1 == ap) = true) :
    ∃ block ∈ s.live, block.1 = ap ∧
      s.held.Perm ((ap - 16, nunits block.2) ::
        State.held { s with live := s.live.eraseP fun b => b.1 == ap }) := by
  obtain ⟨block, mem, at_⟩ := List.any_eq_true.mp live
  obtain ⟨first, l, r, -, same, split, erased⟩ :=
    List.exists_of_eraseP (p := fun b : Nat × Nat => b.1 == ap) mem at_
  have same : first.1 = ap := beq_iff_eq.mp same
  refine ⟨first, by rw [split]; simp, same, ?_⟩
  dsimp only [State.held]
  rw [erased, split, ← same]
  simp only [List.map_append, List.map_cons]
  exact List.perm_middle

theorem exec_cases (run : exec base s (call, fuel) = some (s', out)) :
    (∃ nbytes answers t, call = .malloc nbytes answers ∧ 16 * nunits nbytes < 2 ^ 31 ∧
      s.malloc base fuel nbytes answers = some (t, out) ∧
      s' = { t with live := if out = 0 then t.live else (out, nbytes) :: t.live }) ∨
    (∃ ap t, call = .free ap ∧ (s.live.any fun block => block.1 == ap) = true ∧
      s.free fuel ap = some t ∧
      s' = { t with live := t.live.eraseP fun block => block.1 == ap }) ∨
    ∃ a header, ∃ block ∈ s.live, call = .store a header ∧ block.1 - 16 < a ∧
      a < block.1 + block.2 ∧ s' = { s with mem := s.mem.set a header } := by
  cases call with
  | malloc nbytes answers =>
    unfold exec at run
    dsimp only at run
    split at run
    · next fits =>
      split at run
      · cases run
      · next t ap done =>
        obtain ⟨rfl, rfl⟩ := Prod.mk.inj (Option.some.inj run)
        exact .inl ⟨nbytes, answers, t, rfl, fits, done, rfl⟩
    · cases run
  | free ap =>
    unfold exec at run
    dsimp only at run
    split at run
    · next live =>
      split at run
      · cases run
      · next t done =>
        obtain ⟨rfl, rfl⟩ := Prod.mk.inj (Option.some.inj run)
        exact .inr (.inl ⟨ap, t, rfl, live, done, rfl⟩)
    · cases run
  | store a header =>
    unfold exec at run
    dsimp only at run
    split at run
    · next inside =>
      obtain ⟨rfl, rfl⟩ := Prod.mk.inj (Option.some.inj run)
      obtain ⟨block, live, bounds⟩ := List.any_eq_true.mp inside
      obtain ⟨low, high⟩ := Bool.and_eq_true_iff.mp bounds
      exact .inr (.inr ⟨a, header, block, live, rfl, of_decide_eq_true low,
        of_decide_eq_true high, rfl⟩)
    · cases run

theorem exec_total (run : exec base s (call, fuel) = some (s', out)) :
    total s.chunks ≤ total s'.chunks := by
  rcases exec_cases run with ⟨nbytes, answers, t, -, -, done, rfl⟩ | ⟨ap, t, -, -, done, rfl⟩ |
    ⟨a, header, block, -, -, -, -, rfl⟩
  · have grown := mallocLoop_total done
    rw [(start_frame base s).1] at grown
    exact grown
  · exact Nat.le_of_eq (congrArg total (free_frame done).1.symm)
  · exact le_rfl

/-- **One step keeps the invariant.** -/
theorem Healthy.step (healthy : Healthy base s) (run : exec base s (call, fuel) = some (s', out))
    (small : total s'.chunks < 2 ^ 32) : Healthy base s' := by
  rcases exec_cases run with ⟨nbytes, answers, t, -, -, done, rfl⟩ | ⟨ap, t, -, live, done, rfl⟩ |
    ⟨a, header, block, live, -, low, high, rfl⟩
  · obtain ⟨nodes, ready⟩ := healthy.start
    obtain ⟨live, nodes', result⟩ := ready.mallocLoop nunits_pos ready.start done small
    have live : t.live = s.live := live.trans (start_frame base s).2.2
    rcases result with ⟨rfl, ready⟩ | ⟨bp, rfl, ready⟩
    · refine ⟨healthy.pos, ready.low, .inr ⟨nodes', ?_⟩⟩
      have held : State.held { t with live := if 0 = 0 then t.live else (0, nbytes) :: t.live } =
          s.held := by
        dsimp only [State.held]
        rw [if_pos rfl, live]
      rw [held]
      exact ⟨ready.inv, ready.start, ready.past, ready.low⟩
    · refine ⟨healthy.pos, ready.low, .inr ⟨nodes', ?_⟩⟩
      have held : State.held { t with
          live := if bp + 16 = 0 then t.live else (bp + 16, nbytes) :: t.live } =
          (bp, nunits nbytes) :: s.held := by
        rw [if_neg (Nat.succ_ne_zero _), live]
        rfl
      rw [held]
      exact ⟨ready.inv, ready.start, ready.past, ready.low⟩
  · obtain ⟨block, at_, rfl, erased⟩ := held_erase live
    obtain ⟨nodes, ready⟩ := healthy.ready at_
    have shown : Ready base s nodes ((block.1 - 16, nunits block.2) ::
        State.held { s with live := s.live.eraseP fun b => b.1 == block.1 }) :=
      ⟨ready.inv.perm erased.symm, ready.start, ready.past, ready.low⟩
    obtain ⟨chunks, -, live⟩ := free_frame done
    rw [chunks] at small
    obtain ⟨nodes', ready, -⟩ := shown.free_keeps small done
    refine ⟨healthy.pos, ready.low, .inr ⟨nodes', ?_⟩⟩
    rw [live]
    exact ⟨ready.inv, ready.start, ready.past, ready.low⟩
  · obtain ⟨nodes, ready⟩ := healthy.ready live
    have room := bytes_le block.2
    refine ⟨healthy.pos, healthy.low, .inr ⟨nodes, ?_, ready.start, ready.past, ready.low⟩⟩
    exact ready.inv.store header (List.mem_map_of_mem live) low (by dsimp only; omega)

theorem Healthy.reachable (reach : (heap base).Reachable s) (small : total s.chunks < 2 ^ 32) :
    Healthy base s := by
  refine reach.invariant (P := fun s => total s.chunks < 2 ^ 32 → Healthy base s) ?_ ?_ small
  · rintro s ⟨pos, low, first, chunks, live⟩ -
    exact ⟨pos, low, .inl ⟨first, chunks, live⟩⟩
  · rintro s ⟨⟨call, fuel⟩, out⟩ s' healthy run small
    have before : total s.chunks < 2 ^ 32 := Nat.lt_of_le_of_lt (exec_total run) small
    exact (healthy before).step run small

theorem Healthy.sound (healthy : Healthy base s) : ∃ order, Sound base s order := by
  rcases healthy.state with ⟨first, chunks, live⟩ | ⟨nodes, ready⟩
  · have held : s.held = [] := by rw [State.held, live, List.map_nil]
    refine ⟨[], fun set_up => absurd first set_up, fun _ => rfl, List.pairwise_singleton .., ?_, ?_,
      ?_, ?_⟩
    · rw [live]
      intro block none
      cases none
    · rw [live]
      intro block none
      cases none
    · rw [held]
      exact .nil
    · rw [held, chunks]
      exact ⟨.nil, .nil⟩
  · have inv := ready.inv
    obtain ⟨free, rfl⟩ : ∃ free, nodes = (base, 0) :: free := by
      cases nodes with
      | nil => cases inv.layout.head
      | cons b free => exact ⟨free, by rw [Option.some.inj inv.layout.head]⟩
    obtain ⟨above, -⟩ := List.pairwise_cons.mp inv.layout.ordered
    have listed : s.mem.blocks (free.map Prod.fst) = free :=
      (inv.sizes.subset fun b node => by simp [node]).blocks_eq
    -- `base` itself has no units.
    have units : Tiled 16 (free ++ s.held) s.chunks :=
      ⟨inv.layout.tiled.perm, inv.layout.tiled.apart⟩
    refine ⟨free.map Prod.fst, fun _ => ⟨inv.ring, ready.start⟩, ?_, ?_, ?_, ?_, ?_,
      by rw [listed]; exact units⟩
    · intro first
      have := ready.base_le
      have := healthy.pos
      omega
    · refine (List.pairwise_map (f := Prod.fst) (l := (base, 0) :: free)).mpr
        (inv.layout.ordered.imp_of_mem fun node _ gap => ?_)
      rw [inv.sizes _ (List.mem_append_left _ node)]
      unfold Before at gap
      omega
    · intro block live x low high
      have room := bytes_le block.2
      have at_ : (block.1 - 16, nunits block.2) ∈ free ++ s.held :=
        List.mem_append_right _ (List.mem_map_of_mem live)
      exact units.inside at_ (by dsimp only; omega) (by dsimp only; omega)
    · intro block live
      have header := ready.header live
      have room := bytes_le block.2
      omega
    · have filled : ∀ b ∈ free ++ s.held, 0 < b.2 := by
        intro b at_
        rcases List.mem_append.mp at_ with node | held
        · have above := above b node
          unfold Before at above
          exact inv.layout.filled b (List.mem_cons_of_mem _ node) (by omega)
        · exact inv.layout.held b held
      rw [listed]
      refine (units.pairwise (by omega)).imp_of_mem ?_
      intro b c at_ at' separate
      exact separate (filled b at_) (filled c at')

/-! ## Calls end -/

theorem Healthy.free_ends (healthy : Healthy base s) (live : block ∈ s.live) :
    ∃ bound out, ∀ fuel, bound ≤ fuel → exec base s (.free block.1, fuel) = some out := by
  obtain ⟨b, at_, same, erased⟩ := held_erase (any_live live)
  obtain ⟨nodes, ready⟩ := healthy.ready at_
  have shown : Ready base s nodes ((block.1 - 16, nunits b.2) ::
      State.held { s with live := s.live.eraseP fun b => b.1 == block.1 }) :=
    ⟨ready.inv.perm erased.symm, ready.start, ready.past, ready.low⟩
  obtain ⟨bound, t, run⟩ := shown.free_ends
  rw [ready.header live] at run
  refine ⟨bound, ({ t with live := t.live.eraseP fun b => b.1 == block.1 }, 0), ?_⟩
  intro fuel enough
  unfold exec
  dsimp only
  rw [if_pos (any_live live), run fuel enough]

theorem Healthy.malloc_ends (healthy : Healthy base s)
    (answers : List (Option Nat)) (small : total s.chunks < 2 ^ 32)
    (fits : 16 * nunits nbytes < 2 ^ 31)
    (fresh : ∀ p, answer = some p →
      s.brk ≤ p ∧ total s.chunks + max (nunits nbytes) 4096 < 2 ^ 32) :
    ∃ bound out, ∀ fuel, bound ≤ fuel →
      exec base s (.malloc nbytes (answer :: answers), fuel) = some out := by
  obtain ⟨nodes, ready⟩ := healthy.start
  obtain ⟨chunks, brk, -⟩ := start_frame base s
  rw [← chunks] at small
  rw [← chunks, ← brk] at fresh
  obtain ⟨bound, out, -, run⟩ := ready.loop_ends answers healthy.pos small fresh
  refine ⟨bound, ({ out.1 with
    live := if out.2 = 0 then out.1.live else (out.2, nbytes) :: out.1.live }, out.2), ?_⟩
  intro fuel enough
  unfold exec State.malloc
  dsimp only
  rw [if_pos fits, run fuel enough]

end Steps

/-- **The user heap allocator.** While all the memory from `sbrk` is less than `2 ^ 32` units, in
every state that a program reaches the free list is circular through `base`, strictly ordered by
address and without adjacent blocks; what `malloc` returned and the program has not freed lies in
memory from `sbrk`, apart from every other live and free block; every unit from `sbrk` is in exactly
one block; and the next call ends. -/
theorem malloc_free_sound {base : Nat} {s : State} (reach : (heap base).Reachable s)
    (small : total s.chunks < 2 ^ 32) :
    (∃ order, Sound base s order) ∧
    (∀ block ∈ s.live, ∃ bound out, ∀ fuel, bound ≤ fuel →
      exec base s (.free block.1, fuel) = some out) ∧
    ∀ nbytes answer answers, 16 * nunits nbytes < 2 ^ 31 →
      (∀ p, answer = some p →
        s.brk ≤ p ∧ total s.chunks + max (nunits nbytes) 4096 < 2 ^ 32) →
      ∃ bound out, ∀ fuel, bound ≤ fuel →
        exec base s (.malloc nbytes (answer :: answers), fuel) = some out := by
  have healthy := Healthy.reachable reach small
  refine ⟨healthy.sound, fun block live => healthy.free_ends live, ?_⟩
  intro nbytes answer answers fits fresh
  exact healthy.malloc_ends answers small fits fresh

/-- An allocator before its first call, with `base` at 16 and the kernel's memory from 32 on. -/
def fresh : State where
  mem := ⟨fun _ => ⟨0, 0⟩⟩
  freep := 0
  brk := 32
  chunks := []
  live := []

theorem fresh_starts : Initial 16 fresh := ⟨by decide, by decide, rfl, rfl, rfl⟩

/-- Two blocks from one chunk, the first freed, and a request that needs another chunk. -/
def fewCalls : List (Call × Nat) :=
  [(.malloc 100 [some 32], 3), (.malloc 1000 [], 3), (.free 65456, 3),
    (.malloc 100000 [some 65568], 9)]

theorem malloc_free_sound_fewCalls :
    ∃ s, (heap 16).Reachable s ∧ s.live = [(65584, 100000), (64432, 1000)] ∧
      (∃ order, Sound 16 s order) ∧
      (∃ bound out, ∀ fuel, bound ≤ fuel → exec 16 s (.free 64432, fuel) = some out) ∧
      ∃ bound out, ∀ fuel, bound ≤ fuel →
        exec 16 s (.malloc 500000 [some 165584], fuel) = some out := by
  obtain ⟨s, reach, brk, chunks, live⟩ : ∃ s, (heap 16).Reachable s ∧ s.brk = 165584 ∧
      s.chunks = [(32, 4096), (65568, 6251)] ∧ s.live = [(65584, 100000), (64432, 1000)] :=
    Lts.exists_of_run fresh_starts fewCalls (by decide +kernel)
  have few : total s.chunks + max (nunits 500000) 4096 < 2 ^ 32 := by
    rw [chunks]
    decide
  obtain ⟨sound, free, malloc⟩ := malloc_free_sound reach (by omega)
  refine ⟨s, reach, live, sound, free (64432, 1000) ?_, malloc 500000 _ [] (by decide) ?_⟩
  · rw [live]
    decide
  · intro p answer
    obtain rfl := Option.some.inj answer
    exact ⟨Nat.le_of_eq brk, few⟩

/-- As many of the largest requests as together exceed `2 ^ 32` units, and then all of them freed
from the bottom up. -/
def manyCalls : List (Call × Nat) :=
  (List.range 33).map (fun i => (.malloc 2147483616 [some (32 + i * 2147483632)], 4)) ++
    (List.range 33).map fun i => (.free (48 + i * 2147483632), 4)

/-- The one free block that is left counts `2 ^ 32` units too few. -/
theorem joined_size_wraps : ∃ s, (heap 16).Reachable s ∧ ¬ ∃ order, Sound 16 s order := by
  obtain ⟨s, reach, freep, first, second, size, live, units⟩ : ∃ s, (heap 16).Reachable s ∧
      s.freep = 32 ∧ s.mem.next 16 = 32 ∧ s.mem.next 32 = 16 ∧ s.mem.size 32 = 134217695 ∧
      s.live = [] ∧ total s.chunks = 4429184991 :=
    Lts.exists_of_run fresh_starts manyCalls (by decide +kernel)
  refine ⟨s, reach, ?_⟩
  rintro ⟨order, sound⟩
  obtain ⟨linked, -⟩ := sound.circular (by rw [freep]; decide)
  have ordered := (List.pairwise_cons.mp sound.ordered).1
  -- The list holds the block at 32 alone, since that one points back to `base`.
  have alone : order = [32] := by
    cases order with
    | nil =>
      obtain ⟨points, -⟩ := Linked.cons_cons.mp linked
      omega
    | cons a order =>
      obtain ⟨points, linked⟩ := Linked.cons_cons.mp linked
      obtain rfl : a = 32 := by omega
      cases order with
      | nil => rfl
      | cons b order =>
        obtain ⟨points, -⟩ := Linked.cons_cons.mp linked
        have above := (ordered b (by simp)).1
        omega
  have counted := sound.units.total_eq
  rw [alone, State.held, live, units] at counted
  simp only [total, Memory.blocks, List.map_cons, List.map_nil, List.append_nil, List.sum_cons,
    List.sum_nil, size] at counted
  omega

end Umalloc
